import Mathlib.Algebra.Ring.Int.Defs
import Mathlib.Data.List.Dedup
import CotCompression.Shared.Grouping

set_option autoImplicit false

namespace Dict

variable {κ α : Type} [DecidableEq κ]

-- d[key] += amount, for a defaultdict(int)
def add (d : Dict κ Int) (key : κ) (amount : Int) : Dict κ Int := d.set key (d.getD key 0 + amount)

theorem getD_add (d : Dict κ Int) (key other : κ) (amount : Int) :
    (d.add key amount).getD other 0 = d.getD other 0 + if other = key then amount else 0 := by
  rw [add, getD_set]
  by_cases same : other = key
  · rw [if_pos same, if_pos same, same]
  · rw [if_neg same, if_neg same, Int.add_zero]

theorem mem_keys_add {d : Dict κ Int} {key other : κ} {amount : Int} :
    other ∈ (d.add key amount).keys ↔ other = key ∨ other ∈ d.keys := mem_keys_set

variable (key : α → κ) (amount : α → Int)

def sums (items : List α) (d : Dict κ Int) : Dict κ Int := items.foldl (fun d item => d.add (key item) (amount item)) d

def sumAt (items : List α) (other : κ) : Int := ((items.filter fun item => decide (key item = other)).map amount).sum

theorem sumAt_cons (item : α) (items : List α) (other : κ) :
    sumAt key amount (item :: items) other =
      (if other = key item then amount item else 0) + sumAt key amount items other := by
  rw [sumAt, sumAt]
  by_cases same : key item = other
  · simp [same]
  · simp [same, Ne.symm same]

theorem getD_sums (items : List α) (d : Dict κ Int) (other : κ) :
    (sums key amount items d).getD other 0 = d.getD other 0 + sumAt key amount items other := by
  induction items generalizing d with
  | nil => simp [sums, sumAt]
  | cons item items ih =>
    rw [sums, List.foldl_cons, ← sums, ih, getD_add, sumAt_cons, Int.add_assoc]

theorem mem_keys_sums {items : List α} {d : Dict κ Int} {other : κ} :
    other ∈ (sums key amount items d).keys ↔ other ∈ d.keys ∨ other ∈ items.map key := by
  induction items generalizing d with
  | nil => simp [sums]
  | cons item items ih =>
    rw [sums, List.foldl_cons, ← sums, ih, mem_keys_add, List.map_cons, List.mem_cons]
    tauto

end Dict
