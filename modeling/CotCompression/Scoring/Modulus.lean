import Mathlib.Data.Int.ModEq
import Mathlib.Tactic.NormNum.Prime
import CotCompression.Scoring.Agreement

set_option autoImplicit false

namespace CotCompression

open Program (Prog)
open Text (lit decimal)

def verdict (mod n truth : Int) : ℚ := if n % mod = truth % mod then 1 else 0

theorem verdict_eq_iff (mod other n truth : Int) :
    verdict mod n truth = verdict other n truth ↔ (n ≡ truth [ZMOD mod] ↔ n ≡ truth [ZMOD other]) := by
  simp only [verdict, Int.ModEq]
  split <;> split <;> simp_all

theorem exists_lastAnswer (n : Int) : ∃ text, LastAnswer text n :=
  ⟨solutionText [] n, lastAnswer_solution ⟨[], rfl, by simp⟩⟩

theorem verdicts_agree_iff {mod truth : Int} (two : 2 ≤ mod) :
    (∀ n, verdict 23 n truth = verdict mod n truth) ↔ mod = 23 := by
  constructor
  · intro agree
    have same : truth + 23 ≡ truth [ZMOD mod] :=
      ((verdict_eq_iff 23 mod (truth + 23) truth).mp (agree _)).mp (by simp [Int.ModEq])
    have divides : mod ∣ 23 := by
      have shifted := same.symm.dvd
      rwa [add_sub_cancel_left] at shifted
    have prime : Nat.Prime 23 := by norm_num
    rcases (Nat.dvd_prime prime).mp (Int.natAbs_dvd_natAbs.mpr divides) with one | all <;> omega
  · rintro rfl n
    rfl

-- The reward judges modulo 23 whatever the chain was computed with, which is the chain's own
-- modulus in one case only.
theorem reward_modulus {op numberRange mod : Int} {data : ChainData} {renderer : Renderer} {s : Text}
    (two : 2 ≤ mod) (drawn : (generateChain op numberRange mod).Returns data)
    (rendered : (renderer.run variableNames data mod).Returns s) :
    ∃ truth gt, data.values.getLast? = some truth ∧ extractGroundTruth s = some gt ∧
      (∀ text n, LastAnswer text n →
        computeScore text gt = .ok (if n ≡ truth [ZMOD 23] then 1 else 0)) ∧
      ((∀ text n, LastAnswer text n →
        computeScore text gt = .ok (if n ≡ truth [ZMOD mod] then 1 else 0)) ↔ mod = 23) := by
  have generated := generateChain_returns drawn
  have solution := generated.rendered renderer rendered
  have score {text : Text} {n : Int} (last : LastAnswer text n) :=
    computeScore_lastAnswer last (pyInt_decimal (data.value data.ops.length))
  refine ⟨_, _, generated.last_value, extractGroundTruth_solution solution,
    fun text n last => score last, ?_⟩
  rw [← verdicts_agree_iff two]
  constructor
  · intro judged n
    obtain ⟨text, last⟩ := exists_lastAnswer n
    exact Except.ok.inj ((score last).symm.trans (judged text n last))
  · intro agree text n last
    exact (score last).trans (congrArg _ (agree n))

theorem reward_modulus_five : ∃ data s truth gt, (generateChain 1 3 5).Returns data ∧
    (Renderer.rightforward.run variableNames data 5).Returns s ∧ data.values.getLast? = some truth ∧
      extractGroundTruth s = some gt ∧ ∀ text n, LastAnswer text n →
        computeScore text gt = .ok (if n ≡ truth [ZMOD 23] then 1 else 0) := by
  obtain ⟨data, drawn⟩ := exists_returns (generateChain_safe (by decide : (0 : Int) ≤ 1) (by decide)
    (by decide : (3 : Int) ≤ 3) (by decide : (1 : Int) ≤ 5))
  obtain ⟨s, rendered⟩ := exists_returns ((generateChain_returns drawn).render .rightforward trivial).1
  obtain ⟨truth, gt, last, found, judged, _⟩ := reward_modulus (by decide) drawn rendered
  exact ⟨data, s, truth, gt, drawn, rendered, last, found, judged⟩

-- Modulo 5 the answer is 2, so 7 is right; the reward calls it wrong.
theorem seven_unrewarded : ∃ data s gt, (generateChain 1 3 5).Returns data ∧
    (Renderer.normalforward.run variableNames data 5).Returns s ∧ data.values.getLast? = some 2 ∧
      extractGroundTruth s = some gt ∧ LastAnswer (lit ". Answer: 7.") 7 ∧ (7 ≡ 2 [ZMOD 5]) ∧
      computeScore (lit ". Answer: 7.") gt = .ok 0 := by
  have drawn : leadsTo leastAnswers () (generateChain 1 3 5) (fun data => decide (data.values = [1, 2])) = true := by
    decide +kernel
  obtain ⟨data, returned, values⟩ := returns_of_leadsTo drawn
  have generated := generateChain_returns returned
  obtain ⟨s, rendered⟩ := exists_returns (generated.render .normalforward trivial).1
  have last := generated.last_value
  rw [of_decide_eq_true values] at last
  have solution := generated.rendered _ rendered
  rw [← Option.some.inj (last : some (2 : Int) = _)] at solution
  refine ⟨data, s, _, returned, rendered, by rw [of_decide_eq_true values]; rfl,
    extractGroundTruth_solution solution, ?_, by decide, by decide +kernel⟩
  exact lastAnswer_solution ⟨[], by decide, by simp⟩

end CotCompression
