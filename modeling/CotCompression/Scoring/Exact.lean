import Mathlib.Tactic.Linarith
import CotCompression.Scoring.Evaluate

set_option autoImplicit false

namespace CotCompression

open Text (lit)

theorem near_int (a b : Int) : Near a b ↔ a = b ∨ 10 ^ 8 * |a - b| ≤ max |a| |b| := by
  have cast : Near a b ↔ 10 ^ 8 * |a - b| ≤ max (max 1 |a|) |b| := by
    rw [Near, div_mul_eq_mul_div, one_mul, le_div_iff₀ (by norm_num), mul_comm]
    exact_mod_cast Iff.rfl
  rw [cast]
  constructor
  · intro near
    by_cases same : a = b
    · exact .inl same
    · have apart : 1 ≤ |a - b| := Int.one_le_abs (sub_ne_zero.mpr same)
      exact .inr (by omega)
  · rintro (rfl | near)
    · simp
    · omega

theorem exactMatch_near {pred gold : Text} {a b : Int} (left : IsLiteral pred a) (right : IsLiteral gold b) :
    exactMatch pred gold = if Near a b then 1 else 0 := by
  have filled : gold ≠ [] := by
    obtain ⟨sign, digits, stop, rfl, _, filled, _⟩ := right
    simp [filled]
  simp only [exactMatch, matchWith, if_neg filled, parseNumeric_literal left, parseNumeric_literal right,
    decide_eq_true_eq]

-- Integers match when they are equal, or when both are so large that their difference is within
-- the relative tolerance.
theorem exactMatch_literal {pred gold : Text} {a b : Int} (left : IsLiteral pred a) (right : IsLiteral gold b) :
    exactMatch pred gold = 1 ↔ a = b ∨ 10 ^ 8 * |a - b| ≤ max |a| |b| := by
  rw [exactMatch_near left right, ← near_int]
  split <;> simp_all

theorem exactMatch_literal_seven : exactMatch (lit "+7.") (lit "7") = 1 :=
  (exactMatch_literal ⟨['+'], ['7'], ['.'], rfl, by simp, by simp, by decide, by simp, by decide⟩
    ⟨[], ['7'], [], rfl, by simp, by simp, by decide, by simp, by decide⟩).mpr (.inl (rfl : (7 : Int) = 7))

theorem neighbours_match : IsLiteral (lit "100000000") 100000000 ∧ IsLiteral (lit "100000001") 100000001 ∧
    ¬ (exactMatch (lit "100000000") (lit "100000001") = 1 ↔ (100000000 : Int) = 100000001) := by
  have left : IsLiteral (lit "100000000") 100000000 :=
    ⟨[], lit "100000000", [], by simp, by simp, by decide, by decide, by simp, by decide⟩
  have right : IsLiteral (lit "100000001") 100000001 :=
    ⟨[], lit "100000001", [], by simp, by simp, by decide, by decide, by simp, by decide⟩
  refine ⟨left, right, ?_⟩
  rw [exactMatch_near left right, if_pos ((near_int _ _).mpr (.inr (by decide)))]
  decide

end CotCompression
