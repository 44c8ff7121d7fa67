import Mathlib.Data.List.GetD
import Mathlib.Data.List.MinMax
import Mathlib.Data.List.Nodup
import Mathlib.Tactic.Common

set_option autoImplicit false

namespace RoundRobin

def leastIndex (counts : List Nat) : Nat :=
  ((List.range counts.length).argmin fun index => counts.getD index 0).getD 0

def least (counts : List Nat) : Nat := counts.min?.getD 0

/-- What `index` holds after `turns` turns dealt to `size` indices, each to the first least one. -/
def quota (size turns index : Nat) : Nat :=
  turns / size + if index < turns % size then 1 else 0

def shares (size turns : Nat) : List Nat := (List.range size).map (quota size turns)

@[simp] theorem shares_length (size turns : Nat) : (shares size turns).length = size := by
  simp [shares]

theorem shares_getElem (size turns index : Nat) (within : index < (shares size turns).length) :
    (shares size turns)[index] = quota size turns index := by
  simp [shares]

theorem shares_zero (size : Nat) : shares size 0 = List.replicate size 0 := by
  apply List.ext_getElem <;> simp [shares, quota]

theorem quota_anti (size turns first second : Nat) (order : first ≤ second) :
    quota size turns second ≤ quota size turns first := by
  unfold quota
  split_ifs <;> omega

theorem quota_spread (size turns first second : Nat) :
    quota size turns first ≤ quota size turns second + 1 := by
  unfold quota
  split_ifs <;> omega

theorem quota_multiple (size rounds index : Nat) (positive : 0 < size) :
    quota size (rounds * size) index = rounds := by
  simp [quota, positive]

theorem div_mod_succ (size turns : Nat) (positive : 0 < size) :
    (turns % size + 1 < size ∧ (turns + 1) / size = turns / size ∧
        (turns + 1) % size = turns % size + 1) ∨
      (turns % size + 1 = size ∧ (turns + 1) / size = turns / size + 1 ∧ (turns + 1) % size = 0) := by
  have split := Nat.div_add_mod turns size
  have below := Nat.mod_lt turns positive
  by_cases last : turns % size + 1 = size
  · right
    have unique := (@Nat.div_mod_unique size (turns + 1) (turns / size + 1) 0 positive).mpr
      ⟨by rw [Nat.mul_add]; omega, positive⟩
    exact ⟨last, unique.1, unique.2⟩
  · left
    have unique := (@Nat.div_mod_unique size (turns + 1) (turns / size) (turns % size + 1) positive).mpr
      ⟨by omega, by omega⟩
    exact ⟨by omega, unique.1, unique.2⟩

theorem quota_succ (size turns index : Nat) (within : index < size) :
    quota size (turns + 1) index =
      quota size turns index + if index = turns % size then 1 else 0 := by
  rcases div_mod_succ size turns (by omega) with ⟨below, div, mod⟩ | ⟨last, div, mod⟩ <;>
    simp only [quota, div, mod] <;> split_ifs <;> omega

theorem shares_succ (size turns : Nat) :
    shares size (turns + 1) = (shares size turns).modify (turns % size) (· + 1) := by
  apply List.ext_getElem
  · simp
  · intro index left _
    have within : index < size := by simpa using left
    rw [List.getElem_modify, shares_getElem, shares_getElem, quota_succ size turns index within]
    by_cases chosen : turns % size = index
    · simp [chosen]
    · simp [chosen, Ne.symm chosen]

theorem idxOf_range {size index : Nat} (within : index < size) :
    (List.range size).idxOf index = index := by
  have found := List.nodup_range.idxOf_getElem index (by simpa using within)
  simpa using found

theorem leastIndex_shares (size turns : Nat) (positive : 0 < size) :
    leastIndex (shares size turns) = turns % size := by
  have below := Nat.mod_lt turns positive
  have value (index : Nat) (within : index < size) :
      (shares size turns).getD index 0 = quota size turns index := by
    rw [List.getD_eq_getElem _ _ (by simpa using within), shares_getElem]
  have chosen : (List.range size).argmin (fun index => (shares size turns).getD index 0) =
      some (turns % size) := by
    rw [List.argmin_eq_some_iff]
    refine ⟨List.mem_range.mpr below, ?_, ?_⟩
    · intro index member
      rw [value _ below, value _ (List.mem_range.mp member)]
      simp [quota]
    · intro index member lesser
      have within := List.mem_range.mp member
      rw [value _ below, value _ within] at lesser
      have past : turns % size ≤ index := by
        by_contra early
        simp only [quota, Nat.lt_irrefl, Nat.lt_of_not_le early, if_true, if_false] at lesser
        omega
      rw [idxOf_range below, idxOf_range within]
      exact past
  simp only [leastIndex, shares_length, chosen, Option.getD_some]

theorem least_shares (size turns : Nat) (positive : 0 < size) :
    least (shares size turns) = turns / size := by
  have smallest : (shares size turns).min? = some (turns / size) := by
    rw [List.min?_eq_some_iff]
    constructor
    · refine List.mem_map.mpr ⟨turns % size, List.mem_range.mpr (Nat.mod_lt _ positive), ?_⟩
      simp [quota]
    · intro count member
      obtain ⟨index, _, rfl⟩ := List.mem_map.mp member
      exact Nat.le_add_right _ _
  simp [least, smallest]

theorem leastIndex_lt {counts : List Nat} (filled : 0 < counts.length) :
    leastIndex counts < counts.length := by
  unfold leastIndex
  cases chosen : (List.range counts.length).argmin fun index => counts.getD index 0 with
  | none => exact filled
  | some index => exact List.mem_range.mp (List.argmin_mem chosen)

theorem least_zero {counts : List Nat} {index : Nat} (none : counts[index]? = some 0) :
    least counts = 0 := by
  have smallest : counts.min? = some 0 :=
    List.min?_eq_some_iff.mpr ⟨List.mem_of_getElem? none, fun _ _ => Nat.zero_le _⟩
  simp [least, smallest]

end RoundRobin
