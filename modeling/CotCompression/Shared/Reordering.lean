import Mathlib.Data.List.Basic
import Mathlib.Data.List.Nodup
import Mathlib.Data.List.Perm.Basic
import Mathlib.Order.Lattice
import Mathlib.Tactic.Common

set_option autoImplicit false

-- Lists read in an order given by positions, and put back.
namespace Reordering

variable {α β : Type}

def gather (xs : List α) (order : List Nat) : List α := order.filterMap (xs[·]?)

def Inside (xs : List α) (order : List Nat) : Prop := ∀ i ∈ order, i < xs.length

@[simp] theorem gather_nil (xs : List α) : gather xs [] = [] := rfl

theorem gather_cons {xs : List α} {i : Nat} (order : List Nat) (within : i < xs.length) :
    gather xs (i :: order) = xs[i] :: gather xs order := by
  rw [gather, List.filterMap_cons_some (List.getElem?_eq_getElem within)]
  rfl

theorem gather_append (xs : List α) (first second : List Nat) :
    gather xs (first ++ second) = gather xs first ++ gather xs second := List.filterMap_append

theorem gather_flatten (xs : List α) (orders : List (List Nat)) :
    gather xs orders.flatten = (orders.map (gather xs)).flatten := by
  rw [gather, List.filterMap_flatten]
  rfl

theorem gather_map (f : α → β) (xs : List α) (order : List Nat) : gather (xs.map f) order = (gather xs order).map f := by
  rw [gather, gather, List.map_filterMap]
  exact List.filterMap_congr fun i _ => by simp

theorem gather_take {xs : List α} {order : List Nat} {size : Nat} (below : ∀ i ∈ order, i < size) :
    gather (xs.take size) order = gather xs order :=
  List.filterMap_congr fun i member => List.getElem?_take_of_lt (below i member)

theorem gather_perm (xs : List α) {order other : List Nat} (same : order.Perm other) :
    (gather xs order).Perm (gather xs other) := same.filterMap _

theorem gather_subset (xs : List α) (order : List Nat) : gather xs order ⊆ xs := fun _ member => by
  obtain ⟨i, -, found⟩ := List.mem_filterMap.mp member
  exact List.mem_of_getElem? found

theorem gather_length {xs : List α} {order : List Nat} (inside : Inside xs order) :
    (gather xs order).length = order.length := by
  induction order with
  | nil => rfl
  | cons i order ih =>
    obtain ⟨first, rest⟩ := List.forall_mem_cons.mp inside
    rw [gather_cons order first, List.length_cons, List.length_cons, ih rest]

theorem gather_getElem? {xs : List α} {order : List Nat} (inside : Inside xs order) (i : Nat) :
    (gather xs order)[i]? = order[i]?.bind (xs[·]?) := by
  induction order generalizing i with
  | nil => simp
  | cons first order ih =>
    obtain ⟨within, rest⟩ := List.forall_mem_cons.mp inside
    rw [gather_cons order within]
    cases i with
    | zero => simp [List.getElem?_eq_getElem within]
    | succ i => simpa using ih rest i

theorem gather_range (xs : List α) : gather xs (List.range xs.length) = xs := by
  have inside : Inside xs (List.range xs.length) := fun i member => List.mem_range.mp member
  refine List.ext_getElem? fun i => ?_
  rw [gather_getElem? inside]
  by_cases within : i < xs.length
  · simp [List.getElem?_range within]
  · rw [List.getElem?_eq_none (by simpa using within), List.getElem?_eq_none (by omega)]
    rfl

theorem gather_of_range {n : Nat} {order : List Nat} (inside : ∀ i ∈ order, i < n) :
    gather (List.range n) order = order := by
  have each : ∀ i ∈ order, (List.range n)[i]? = some i := fun i member => List.getElem?_range (inside i member)
  rw [gather, List.filterMap_congr each, List.filterMap_some]

theorem gather_range' (xs : List α) {start size : Nat} (within : start + size ≤ xs.length) :
    gather xs (List.range' start size) = (xs.drop start).take size := by
  have inside : Inside xs (List.range' start size) := fun i member => by
    have bounds := List.mem_range'_1.mp member
    omega
  refine List.ext_getElem? fun i => ?_
  rw [gather_getElem? inside, List.getElem?_take, List.getElem?_drop]
  by_cases small : i < size
  · simp [small]
  · rw [List.getElem?_eq_none (by simpa using small), if_neg small]
    rfl

def Complete (xs : List α) (order : List Nat) : Prop := order.Perm (List.range xs.length)

theorem Complete.inside {xs : List α} {order : List Nat} (complete : Complete xs order) : Inside xs order :=
  fun _ member => List.mem_range.mp (complete.mem_iff.mp member)

theorem Complete.length_eq {xs : List α} {order : List Nat} (complete : Complete xs order) :
    order.length = xs.length := by rw [List.Perm.length_eq complete, List.length_range]

theorem Complete.gather_perm {xs : List α} {order : List Nat} (complete : Complete xs order) :
    (gather xs order).Perm xs := (Reordering.gather_perm xs complete).trans (.of_eq (gather_range xs))

section Inverse

/-- Each position is written at the place it came from. -/
def scatter (places : List (Nat × Nat)) (start : List Nat) : List Nat :=
  places.foldl (fun reverse (idx, i) => reverse.set idx i) start

def inverse (order : List Nat) : List Nat := scatter order.zipIdx order

variable {places : List (Nat × Nat)} {start : List Nat}

@[simp] theorem scatter_length (places : List (Nat × Nat)) (start : List Nat) :
    (scatter places start).length = start.length := by
  induction places generalizing start with
  | nil => rfl
  | cons place places ih =>
    rw [scatter, List.foldl_cons, ← scatter, ih, List.length_set]

theorem scatter_unchanged {idx : Nat} (absent : idx ∉ places.map Prod.fst) :
    (scatter places start)[idx]? = start[idx]? := by
  induction places generalizing start with
  | nil => rfl
  | cons place places ih =>
    rw [List.map_cons, List.mem_cons, not_or] at absent
    rw [scatter, List.foldl_cons, ← scatter, ih absent.2, List.getElem?_set_ne (Ne.symm absent.1)]

theorem scatter_written (distinct : (places.map Prod.fst).Nodup) {idx i : Nat} (member : (idx, i) ∈ places)
    (within : idx < start.length) : (scatter places start)[idx]? = some i := by
  induction places generalizing start with
  | nil => cases member
  | cons place places ih =>
    obtain ⟨fresh, rest⟩ := List.nodup_cons.mp distinct
    rw [scatter, List.foldl_cons, ← scatter]
    rcases List.mem_cons.mp member with rfl | later
    · rw [scatter_unchanged fresh, List.getElem?_set_self within]
    · exact ih rest later (by simpa using within)

variable {xs : List α} {order : List Nat}

theorem inverse_getElem? (complete : Complete xs order) {i idx : Nat} (at_ : order[i]? = some idx) :
    (inverse order)[idx]? = some i := by
  have distinct : (order.zipIdx.map Prod.fst).Nodup := by
    rw [List.zipIdx_map_fst]
    exact complete.nodup_iff.mpr List.nodup_range
  refine scatter_written distinct (List.mem_zipIdx_iff_getElem?.mpr at_) ?_
  rw [complete.length_eq]
  exact complete.inside idx (List.mem_of_getElem? at_)

theorem Complete.position (complete : Complete xs order) {idx : Nat} (within : idx < xs.length) :
    ∃ i : Nat, order[i]? = some idx :=
  List.mem_iff_getElem?.mp (complete.mem_iff.mpr (List.mem_range.mpr within))

theorem inverse_inside (complete : Complete xs order) : Inside (gather xs order) (inverse order) := by
  intro i member
  obtain ⟨idx, found⟩ := List.mem_iff_getElem?.mp member
  have within : idx < xs.length := by
    have inside := (List.getElem?_eq_some_iff.mp found).1
    rwa [inverse, scatter_length, complete.length_eq] at inside
  obtain ⟨position, at_⟩ := complete.position within
  obtain rfl := Option.some.inj ((inverse_getElem? complete at_).symm.trans found)
  rw [gather_length complete.inside]
  exact (List.getElem?_eq_some_iff.mp at_).1

theorem gather_inverse (complete : Complete xs order) : gather (gather xs order) (inverse order) = xs := by
  refine List.ext_getElem? fun idx => ?_
  rw [gather_getElem? (inverse_inside complete)]
  by_cases within : idx < xs.length
  · obtain ⟨i, at_⟩ := complete.position within
    rw [inverse_getElem? complete at_, Option.bind_some, gather_getElem? complete.inside, at_, Option.bind_some]
  · have outside : (inverse order)[idx]? = none := by
      rw [List.getElem?_eq_none_iff, inverse, scatter_length, complete.length_eq]
      omega
    rw [outside, List.getElem?_eq_none (by omega)]
    rfl

end Inverse

section Sorting

variable {κ : Type} [LinearOrder κ]

theorem sorted_pairwise (key : β → κ) (xs : List β) :
    (xs.mergeSort fun first second => decide (key first ≤ key second)).Pairwise
      fun first second => key first ≤ key second := by
  have sorted := @List.pairwise_mergeSort _ (fun first second => decide (key first ≤ key second))
    (by simpa using fun a b c => le_trans) (by simpa using fun a b => le_total _ _) xs
  simpa using sorted

theorem sorted_perm (key : β → κ) {xs ys : List β} (perm : xs.Perm ys) (distinct : (xs.map key).Nodup) :
    xs.mergeSort (fun first second => decide (key first ≤ key second)) =
      ys.mergeSort fun first second => decide (key first ≤ key second) := by
  refine List.Perm.eq_of_pairwise (fun a b left right low high => ?_) (sorted_pairwise key xs)
    (sorted_pairwise key ys) ((List.mergeSort_perm xs _).trans (perm.trans (List.mergeSort_perm ys _).symm))
  have inside : b ∈ xs := perm.mem_iff.mpr (List.mem_mergeSort.mp right)
  exact List.inj_on_of_nodup_map distinct (List.mem_mergeSort.mp left) inside (le_antisymm low high)

end Sorting

end Reordering
