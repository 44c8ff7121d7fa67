import Mathlib.Algebra.BigOperators.Group.List.Lemmas
import Mathlib.Algebra.Order.BigOperators.Group.List
import Mathlib.Algebra.Order.Field.Basic
import Mathlib.Tactic.Linarith
import Mathlib.Tactic.Positivity
import Mathlib.Tactic.Ring
import CotCompression.Shared.Grouping
import CotCompression.Verl.MicroBatches

set_option autoImplicit false

namespace CotCompression.Verl

open Text (lit)
open Reordering (gather Complete)

structure Response (ι K : Type) where
  uid : ι
  tokenLevelRewards : List K
  responseMask : List K

section Advantages

variable {ι K : Type} [DecidableEq ι] [Field K]

-- token_level_rewards.sum(dim=-1)
def Response.score (r : Response ι K) : K := r.tokenLevelRewards.sum

def idScores (rows : List (Response ι K)) : Dict ι (List K) :=
  rows.foldl (fun d r => d.set r.uid (d.getD r.uid [] ++ [r.score])) .empty

-- The arithmetic of K is exact, where that of the tensors rounds.
def mean (scores : List K) : K := scores.sum / scores.length

-- torch.std, with the square root as it is rounded
def std (root : K → K) (scores : List K) : K :=
  root ((scores.map fun x => (x - mean scores) ^ 2).sum / (scores.length - 1))

-- id2mean[idx] and id2std[idx]
def meanAndStd (root : K → K) (scores : List K) : Except Error (K × K) :=
  match scores with
  | [] => .error (.valueError (lit "no score in prompt index: "))
  | [_] => .ok (0, 1)
  | scores => .ok (mean scores, std root scores)

structure GrpoArgs (K : Type) where
  root : K → K
  epsilon : K
  normAdvByStdInGrpo : Bool

def getStats (stats : List (ι × K × K)) (uid : ι) : Except Error (K × K) :=
  match stats.lookup uid with
  | some entry => .ok entry
  | none => .error .indexError

def computeGrpoOutcomeAdvantage (args : GrpoArgs K) (rows : List (Response ι K)) : Except Error (List (List K)) := do
  let stats ← (idScores rows).entries.mapM fun (idx, scores) => do return (idx, ← meanAndStd args.root scores)
  rows.mapM fun r => do
    let (mean, std) ← getStats stats r.uid
    let score := if args.normAdvByStdInGrpo then (r.score - mean) / (std + args.epsilon) else r.score - mean
    return r.responseMask.map (score * ·)

def groupOf (rows : List (Response ι K)) (uid : ι) : List K :=
  (rows.filter fun r => decide (r.uid = uid)).map Response.score

def advantage (args : GrpoArgs K) (group : List K) (score : K) : K :=
  let (mean, std) := if group.length = 1 then (0, 1) else (mean group, std args.root group)
  if args.normAdvByStdInGrpo then (score - mean) / (std + args.epsilon) else score - mean

variable {args : GrpoArgs K} {rows : List (Response ι K)}

theorem idScores_eq (rows : List (Response ι K)) :
    idScores rows = Dict.collect Response.uid Response.score rows .empty := rfl

theorem idScores_getD (rows : List (Response ι K)) (uid : ι) : (idScores rows).getD uid [] = groupOf rows uid := by
  rw [idScores_eq, Dict.getD_collect]
  rfl

theorem mem_idScores {rows : List (Response ι K)} {uid : ι} :
    uid ∈ (idScores rows).keys ↔ ∃ r ∈ rows, r.uid = uid := by
  rw [idScores_eq, Dict.mem_keys_collect]
  exact or_iff_right List.not_mem_nil

theorem groupOf_filled {r : Response ι K} (member : r ∈ rows) : r.score ∈ groupOf rows r.uid :=
  List.mem_map_of_mem (List.mem_filter.mpr ⟨member, decide_eq_true rfl⟩)

theorem meanAndStd_filled {root : K → K} {scores : List K} (filled : scores ≠ []) :
    meanAndStd root scores = .ok (if scores.length = 1 then (0, 1) else (mean scores, std root scores)) := by
  match scores, filled with
  | [_], _ => rfl
  | _ :: _ :: _, _ => rw [if_neg (by simp)]; rfl

theorem computeGrpo_eq (args : GrpoArgs K) (rows : List (Response ι K)) :
    computeGrpoOutcomeAdvantage args rows =
      .ok (rows.map fun r => r.responseMask.map (advantage args (groupOf rows r.uid) r.score * ·)) := by
  let stat (scores : List K) : K × K :=
    if scores.length = 1 then (0, 1) else (mean scores, std args.root scores)
  have known {uid : ι} {scores : List K} (found : (idScores rows).get? uid = some scores) :
      scores = groupOf rows uid := by
    rw [← idScores_getD, Dict.getD, found, Option.getD_some]
  have stats : ((idScores rows).entries.mapM fun (entry : ι × List K) => do
      return (entry.1, ← meanAndStd args.root entry.2)) =
        .ok ((idScores rows).entries.map fun entry => (entry.1, stat entry.2)) := by
    refine mapM_ok fun entry member => ?_
    have is := known (Dict.get?_eq_some.mpr member)
    obtain ⟨r, inside, same⟩ := mem_idScores.mp (Dict.mem_keys.mpr ⟨_, Dict.get?_eq_some.mpr member⟩)
    have filled : entry.2 ≠ [] := by
      rw [is, ← same]
      exact List.ne_nil_of_mem (groupOf_filled inside)
    rw [meanAndStd_filled filled]
    rfl
  rw [computeGrpoOutcomeAdvantage, stats, ok_bind]
  refine mapM_ok fun r member => ?_
  obtain ⟨scores, found⟩ := Dict.mem_keys.mp (mem_idScores.mpr ⟨r, member, rfl⟩)
  have entry : getStats ((idScores rows).entries.map fun entry => (entry.1, stat entry.2)) r.uid =
      .ok (stat (groupOf rows r.uid)) := by
    rw [getStats, Dict.lookup_mapValues, ← Dict.get?, found, ← known found]
    rfl
  simp only [entry, ok_bind]
  rfl

section Weights

variable {group other : List K} {score : K}

theorem sum_div (xs : List K) (d : K) : xs.sum / d = (xs.map (· / d)).sum := by
  induction xs with
  | nil => simp
  | cons x xs ih => rw [List.sum_cons, List.map_cons, List.sum_cons, add_div, ih]

theorem mean_perm (perm : group.Perm other) : mean group = mean other := by
  rw [mean, mean, perm.sum_eq, perm.length_eq]

theorem advantage_perm (args : GrpoArgs K) (perm : group.Perm other) (score : K) :
    advantage args group score = advantage args other score := by
  have spread : std args.root group = std args.root other := by
    rw [std, std, mean_perm perm, (perm.map _).sum_eq, perm.length_eq]
  rw [advantage, advantage, perm.length_eq, mean_perm perm, spread]

theorem groupOf_perm {rows others : List (Response ι K)} (perm : rows.Perm others) (uid : ι) :
    (groupOf rows uid).Perm (groupOf others uid) := (perm.filter _).map _

def scale (args : GrpoArgs K) (group : List K) : K :=
  if args.normAdvByStdInGrpo then std args.root group + args.epsilon else 1

theorem advantage_eq (args : GrpoArgs K) (several : 2 ≤ group.length) (score : K) :
    advantage args group score = (score - mean group) / scale args group := by
  have many : group.length ≠ 1 := by omega
  simp only [advantage, scale, if_neg many]
  split
  · rfl
  · rw [div_one]

theorem sum_deviations [CharZero K] (several : 2 ≤ group.length) :
    (group.map fun score => score - mean group).sum = 0 := by
  have size : (group.length : K) ≠ 0 := by exact_mod_cast (by omega : group.length ≠ 0)
  have total (scores : List K) (m : K) : (scores.map fun score => score - m).sum = scores.sum - scores.length * m := by
    induction scores with
    | nil => simp
    | cons score scores ih =>
      rw [List.map_cons, List.sum_cons, ih, List.sum_cons, List.length_cons]
      push_cast
      ring
  rw [total, mean, mul_div_cancel₀ _ size, sub_self]

theorem sum_advantage [CharZero K] (args : GrpoArgs K) (several : 2 ≤ group.length) :
    (group.map (advantage args group)).sum = 0 := by
  have each : group.map (advantage args group) =
      (group.map fun score => score - mean group).map (· / scale args group) := by
    rw [List.map_map]
    exact List.map_congr_left fun score _ => advantage_eq args several score
  rw [each, ← sum_div, sum_deviations several, zero_div]

end Weights

end Advantages

section Signs

variable {K : Type} [Field K] [LinearOrder K] [IsStrictOrderedRing K] {args : GrpoArgs K} {group : List K} {score : K}

structure GrpoArgs.Fair (args : GrpoArgs K) : Prop where
  root_nonneg : ∀ x, 0 ≤ x → 0 ≤ args.root x
  epsilon_pos : 0 < args.epsilon

theorem scale_pos (fair : args.Fair) (several : 2 ≤ group.length) : 0 < scale args group := by
  rw [scale]
  split
  · have squares : 0 ≤ (group.map fun x => (x - mean group) ^ 2).sum := by
      refine List.sum_nonneg fun x member => ?_
      obtain ⟨y, -, rfl⟩ := List.mem_map.mp member
      positivity
    have size : (1 : K) ≤ group.length := by exact_mod_cast (by omega : 1 ≤ group.length)
    exact add_pos_of_nonneg_of_pos (fair.root_nonneg _ (div_nonneg squares (sub_nonneg.mpr size))) fair.epsilon_pos
  · exact one_pos

theorem advantage_pos (fair : args.Fair) (several : 2 ≤ group.length) :
    0 < advantage args group score ↔ mean group < score := by
  rw [advantage_eq args several, div_pos_iff_of_pos_right (scale_pos fair several), sub_pos]

theorem advantage_neg (fair : args.Fair) (several : 2 ≤ group.length) :
    advantage args group score < 0 ↔ score < mean group := by
  rw [advantage_eq args several, div_lt_iff₀ (scale_pos fair several), zero_mul, sub_neg]

def Binary (group : List K) : Prop := ∀ score ∈ group, score = 0 ∨ score = 1

theorem Binary.sum_bounds (binary : Binary group) : 0 ≤ group.sum ∧ group.sum ≤ group.length ∧
    (0 < group.sum ↔ 1 ∈ group) ∧ (group.sum < group.length ↔ 0 ∈ group) := by
  induction group with
  | nil => simp
  | cons score group ih =>
    obtain ⟨first, binary⟩ := List.forall_mem_cons.mp binary
    obtain ⟨low, high, some, notAll⟩ := ih binary
    rw [List.sum_cons, List.length_cons, List.mem_cons, List.mem_cons, ← some, ← notAll]
    push_cast
    rcases first with rfl | rfl
    · refine ⟨by linarith, by linarith, ?_, ?_⟩
      · simp
      · simp only [true_or, iff_true]
        linarith
    · refine ⟨by linarith, by linarith, ?_, ?_⟩
      · simp only [true_or, iff_true]
        linarith
      · rw [add_comm (1 : K), add_lt_add_iff_right]
        simp

theorem Binary.mean_pos (binary : Binary group) (filled : 0 < group.length) : 0 < mean group ↔ 1 ∈ group := by
  have size : (0 : K) < group.length := by exact_mod_cast filled
  rw [mean, div_pos_iff_of_pos_right size, binary.sum_bounds.2.2.1]

theorem Binary.mean_lt (binary : Binary group) (filled : 0 < group.length) : mean group < 1 ↔ 0 ∈ group := by
  have size : (0 : K) < group.length := by exact_mod_cast filled
  rw [mean, div_lt_one size, binary.sum_bounds.2.2.2]

theorem Binary.advantage (fair : args.Fair) (binary : Binary group) (several : 2 ≤ group.length)
    (member : score ∈ group) :
    (0 < advantage args group score ↔ score = 1 ∧ 0 ∈ group) ∧
      (advantage args group score < 0 ↔ score = 0 ∧ 1 ∈ group) := by
  have filled : 0 < group.length := by omega
  have low := div_nonneg binary.sum_bounds.1 (Nat.cast_nonneg (α := K) group.length)
  have high := (div_le_one (by exact_mod_cast filled : (0 : K) < group.length)).mpr binary.sum_bounds.2.1
  rw [advantage_pos fair several, advantage_neg fair several]
  rcases binary score member with rfl | rfl
  · refine ⟨⟨fun below => absurd below (not_lt.mpr low), fun right => absurd right.1 zero_ne_one⟩, ?_⟩
    rw [binary.mean_pos filled]
    simp
  · refine ⟨?_, ⟨fun above => absurd above (not_lt.mpr high), fun wrong => absurd wrong.1 one_ne_zero⟩⟩
    rw [binary.mean_lt filled]
    simp

end Signs

end CotCompression.Verl
