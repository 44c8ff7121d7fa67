import Mathlib.Algebra.Order.Field.Basic
import Mathlib.Data.Int.Log
import Mathlib.Data.Rat.Floor
import Mathlib.Tactic.Linarith
import Mathlib.Tactic.Positivity
import Mathlib.Tactic.Ring

set_option autoImplicit false

/-- A double as its exact value; both zeros are one. -/
inductive Binary64 where
  | finite (value : ℚ)
  | infinite (negative : Bool)
  | nan
  deriving DecidableEq

namespace Binary64

/-- The nearest integer, and of two the even one. -/
def roundEven (q : ℚ) : Int :=
  if q - ⌊q⌋ < 1 / 2 ∨ q - ⌊q⌋ = 1 / 2 ∧ ⌊q⌋ % 2 = 0 then ⌊q⌋ else ⌊q⌋ + 1

/-- The exponent of the last of 53 places; below the normal numbers places run out. -/
def lastPlace (q : ℚ) : Int := max (Int.log 2 |q|) (-1022) - 52

def nearest (q : ℚ) : ℚ := roundEven (q / 2 ^ lastPlace q) * 2 ^ lastPlace q

def round (q : ℚ) : Binary64 :=
  if 2 ^ 1024 - 2 ^ 970 ≤ |q| then .infinite (decide (q < 0)) else .finite (nearest q)

def abs : Binary64 → Binary64
  | .finite a => .finite |a|
  | .infinite _ => .infinite false
  | .nan => .nan

def sub : Binary64 → Binary64 → Binary64
  | .finite a, .finite b => round (a - b)
  | .infinite s, .infinite t => if s = t then .nan else .infinite s
  | .infinite s, .finite _ => .infinite s
  | .finite _, .infinite t => .infinite (!t)
  | _, _ => .nan

def mul : Binary64 → Binary64 → Binary64
  | .finite a, .finite b => round (a * b)
  | .infinite s, .infinite t => .infinite (s != t)
  | .infinite s, .finite b => if b = 0 then .nan else .infinite (s != decide (b < 0))
  | .finite a, .infinite t => if a = 0 then .nan else .infinite (decide (a < 0) != t)
  | _, _ => .nan

def le : Binary64 → Binary64 → Bool
  | .finite a, .finite b => decide (a ≤ b)
  | .finite _, .infinite t => !t
  | .infinite s, .finite _ => s
  | .infinite s, .infinite t => s || !t
  | _, _ => false

-- max(a, b): the first of two that are equal
def max (a b : Binary64) : Binary64 := if le a b && !le b a then b else a

section Nearest

variable {q : ℚ}

theorem roundEven_near (q : ℚ) : |roundEven q - q| ≤ 1 / 2 := by
  have low := Int.floor_le q
  have high := Int.lt_floor_add_one q
  rw [roundEven]
  split
  · next below =>
    have half : q - ⌊q⌋ ≤ 1 / 2 := below.elim le_of_lt fun tie => tie.1.le
    rw [abs_le]
    constructor <;> linarith
  · next above =>
    have half : 1 / 2 ≤ q - ⌊q⌋ := not_lt.mp fun less => above (.inl less)
    push_cast
    rw [abs_le]
    constructor <;> linarith

@[simp] theorem roundEven_int (z : Int) : roundEven z = z := by simp [roundEven]

theorem roundEven_nonneg (nonneg : 0 ≤ q) : 0 ≤ roundEven q := by
  have floor := Int.floor_nonneg.mpr nonneg
  rw [roundEven]
  split <;> omega

theorem place_pos (q : ℚ) : (0 : ℚ) < 2 ^ lastPlace q := zpow_pos two_pos _

theorem nearest_zero : nearest 0 = 0 := by simp [nearest, roundEven]

theorem nearest_near (q : ℚ) : |nearest q - q| ≤ 2 ^ lastPlace q / 2 := by
  have place := place_pos q
  have scaled : nearest q - q = (roundEven (q / 2 ^ lastPlace q) - q / 2 ^ lastPlace q) * 2 ^ lastPlace q := by
    rw [nearest, sub_mul, div_mul_cancel₀ _ place.ne']
  rw [scaled, abs_mul, abs_of_pos place]
  have near := mul_le_mul_of_nonneg_right (roundEven_near (q / 2 ^ lastPlace q)) place.le
  linarith

theorem place_le (filled : q ≠ 0) : (2 : ℚ) ^ lastPlace q ≤ (|q| + 2 ^ (-1022 : Int)) / 2 ^ 52 := by
  have positive := abs_pos.mpr filled
  have least : (0 : ℚ) < 2 ^ (-1022 : Int) := zpow_pos two_pos _
  have below : (2 : ℚ) ^ Int.log 2 |q| ≤ |q| := by
    exact_mod_cast Int.zpow_log_le_self (by decide) positive
  have place : (2 : ℚ) ^ Max.max (Int.log 2 |q|) (-1022) ≤ |q| + 2 ^ (-1022 : Int) := by
    rcases max_choice (Int.log 2 |q|) (-1022) with same | same
    · rw [same]
      linarith
    · rw [same]
      linarith
  rw [lastPlace, zpow_sub₀ two_ne_zero]
  exact div_le_div_of_nonneg_right place (by positivity)

-- The error, relative for the normal numbers and absolute for those below.
theorem nearest_error (q : ℚ) : |nearest q - q| ≤ (|q| + 2 ^ (-1022 : Int)) / 2 ^ 53 := by
  have least : (0 : ℚ) < 2 ^ (-1022 : Int) := zpow_pos two_pos _
  by_cases filled : q = 0
  · rw [filled, nearest_zero, sub_zero, abs_zero, zero_add]
    exact div_nonneg least.le (by positivity)
  · have near := nearest_near q
    have place := place_le filled
    rw [pow_succ, ← div_div]
    linarith

theorem tiny_le : (2 : ℚ) ^ (-1022 : Int) ≤ 1 / 100 := by
  have more : (2 : ℚ) ^ (-1022 : Int) ≤ 2 ^ (-7 : Int) := zpow_le_zpow_right₀ one_le_two (by decide)
  exact more.trans (by norm_num)

theorem nearest_close (q : ℚ) : |nearest q - q| ≤ |q| / 100 + 1 / 100 := by
  have error := nearest_error q
  have tiny := tiny_le
  have positive : 0 ≤ |q| + 2 ^ (-1022 : Int) := add_nonneg (abs_nonneg q) (zpow_pos two_pos _).le
  have part : (|q| + 2 ^ (-1022 : Int)) / 2 ^ 53 ≤ (|q| + 2 ^ (-1022 : Int)) / 100 :=
    div_le_div_of_nonneg_left positive (by norm_num) (by norm_num)
  linarith

theorem nearest_nonneg (nonneg : 0 ≤ q) : 0 ≤ nearest q := by
  have rounded := roundEven_nonneg (div_nonneg nonneg (place_pos q).le)
  have cast : (0 : ℚ) ≤ roundEven (q / 2 ^ lastPlace q) := by exact_mod_cast rounded
  exact mul_nonneg cast (place_pos q).le

theorem nearest_int {z : Int} (small : |z| < 2 ^ 53) : nearest z = z := by
  by_cases zero : z = 0
  · simp [zero, nearest, roundEven]
  have log : Int.log 2 |(z : ℚ)| < 53 := by
    have positive : (0 : ℚ) < |(z : ℚ)| := abs_pos.mpr (by exact_mod_cast zero)
    rw [← Int.lt_zpow_iff_log_lt (by decide) positive]
    exact_mod_cast small
  obtain ⟨k, place⟩ := Int.eq_ofNat_of_zero_le (by rw [lastPlace]; omega : 0 ≤ -lastPlace (z : ℚ))
  have scaled : (z : ℚ) / 2 ^ lastPlace (z : ℚ) = ((z * 2 ^ k : Int) : ℚ) := by
    rw [← neg_neg (lastPlace _), place, zpow_neg, div_inv_eq_mul]
    push_cast
    rfl
  rw [nearest, scaled, roundEven_int, ← scaled, div_mul_cancel₀ _ (place_pos _).ne']

theorem round_small (small : |q| < 2 ^ 1000) : round q = .finite (nearest q) := by
  have less : (2 : ℚ) ^ 970 ≤ 2 ^ 1000 := pow_le_pow_right₀ one_le_two (by decide)
  have more : (2 : ℚ) ^ 1000 * 2 ≤ 2 ^ 1024 := by
    rw [← pow_succ]
    exact pow_le_pow_right₀ one_le_two (by decide)
  have gap {x y z : ℚ} (less : x ≤ y) (more : y * 2 ≤ z) : y ≤ z - x := by linarith
  rw [round, if_neg (not_le.mpr (small.trans_le (gap less more)))]

theorem round_int {z : Int} (small : |z| < 2 ^ 53) : round z = .finite z := by
  have more : (2 : ℚ) ^ 53 ≤ 2 ^ 1000 := pow_le_pow_right₀ one_le_two (by decide)
  have below : |(z : ℚ)| < 2 ^ 53 := by exact_mod_cast small
  rw [round_small (below.trans_le more), nearest_int small]

end Nearest

end Binary64
