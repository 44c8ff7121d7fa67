import Mathlib.Algebra.Order.Monoid.Defs
import Mathlib.Data.List.Basic
import Mathlib.Data.List.Perm.Basic
import Mathlib.Tactic.Common

set_option autoImplicit false

-- Merging rows of bags, the fullest bag of one with the emptiest of the other.
namespace Differencing

section Queue

variable {α β : Type} (before : α → α → Bool) (merge : α → α → α)

def popLeast : α → List α → α × List α
  | x, [] => (x, [])
  | x, y :: ys =>
    if before y x then
      let (first, rest) := popLeast y ys
      (first, x :: rest)
    else
      let (first, rest) := popLeast x ys
      (first, y :: rest)

-- heapq.heappop
def heappop : List α → Option (α × List α)
  | [] => none
  | x :: xs => some (popLeast before x xs)

variable {before}

theorem popLeast_perm (x : α) (xs : List α) :
    (x :: xs).Perm ((popLeast before x xs).1 :: (popLeast before x xs).2) := by
  induction xs generalizing x with
  | nil => exact .refl _
  | cons y ys ih =>
    rw [popLeast]
    split
    · exact ((ih y).cons x).trans (.swap _ _ _)
    · exact (List.Perm.swap y x ys).trans (((ih x).cons y).trans (.swap _ _ _))

theorem heappop_perm {queue rest : List α} {first : α} (popped : heappop before queue = some (first, rest)) :
    queue.Perm (first :: rest) := by
  cases queue with
  | nil => cases popped
  | cons x xs =>
    have pair := @popLeast_perm _ before x xs
    rwa [Option.some.inj popped] at pair

theorem heappop_length {queue rest : List α} {first : α} (popped : heappop before queue = some (first, rest)) :
    queue.length = rest.length + 1 := (heappop_perm popped).length_eq

variable (before)

def reduce (queue : List α) : Option α :=
  match _ : heappop before queue with
  | none => none
  | some (first, rest) =>
    match _ : heappop before rest with
    | none => some first
    | some (second, others) => reduce (merge first second :: others)
termination_by queue.length
decreasing_by
  have one := heappop_length ‹heappop before queue = _›
  have two := heappop_length ‹heappop before rest = _›
  simp only [List.length_cons]
  omega

variable {before merge}

@[simp] theorem reduce_nil : reduce before merge [] = none := by
  rw [reduce]
  rfl

theorem reduce_rule {P : List α → α → Prop} (last : ∀ x, P [x] x)
    (step : ∀ first second others x, P (merge first second :: others) x → P (first :: second :: others) x)
    (perm : ∀ xs ys x, xs.Perm ys → P ys x → P xs x) {queue : List α} {x : α}
    (reduced : reduce before merge queue = some x) : P queue x := by
  fun_induction reduce before merge queue with
  | case1 queue popped => cases reduced
  | case2 queue first rest popped again =>
    have single : rest = [] := by
      cases rest with
      | nil => rfl
      | cons y ys => cases again
    obtain rfl := Option.some.inj reduced
    exact perm _ _ _ (heappop_perm popped) (single ▸ last first)
  | case3 queue first rest popped second others again ih =>
    have both := (heappop_perm popped).trans ((heappop_perm again).cons first)
    exact perm _ _ _ both (step _ _ _ _ (ih reduced))

theorem reduce_invariant {P : α → Prop} (merges : ∀ first second, P first → P second → P (merge first second))
    {queue : List α} {x : α} (each : ∀ y ∈ queue, P y) (reduced : reduce before merge queue = some x) : P x := by
  revert each
  refine reduce_rule (P := fun queue x => (∀ y ∈ queue, P y) → P x) ?_ ?_ ?_ reduced
  · intro x each
    exact each x (by simp)
  · intro first second others x ih each
    refine ih (List.forall_mem_cons.mpr ⟨?_, fun y member => each y (by simp [member])⟩)
    exact merges _ _ (each _ (by simp)) (each _ (by simp))
  · intro xs ys x same ih each
    exact ih fun y member => each y (same.mem_iff.mpr member)

theorem reduce_perm {f : α → List β} (merges : ∀ first second, (f (merge first second)).Perm (f first ++ f second))
    {queue : List α} {x : α} (reduced : reduce before merge queue = some x) :
    (f x).Perm (queue.flatMap f) := by
  refine reduce_rule (P := fun queue x => (f x).Perm (queue.flatMap f)) ?_ ?_ ?_ reduced
  · intro x
    simp
  · intro first second others x ih
    simp only [List.flatMap_cons] at ih ⊢
    refine ih.trans ?_
    rw [← List.append_assoc]
    exact (merges first second).append_right _
  · intro xs ys x same ih
    exact ih.trans (same.flatMap_right f).symm

theorem reduce_filled {queue : List α} (filled : queue ≠ []) : ∃ x, reduce before merge queue = some x := by
  fun_induction reduce before merge queue with
  | case1 queue popped =>
    cases queue with
    | nil => exact absurd rfl filled
    | cons x xs => cases popped
  | case2 queue first rest popped again => exact ⟨first, rfl⟩
  | case3 queue first rest popped second others again ih => exact ih (by simp)

end Queue

section Spread

variable {R : Type} [AddCommMonoid R] [PartialOrder R] [IsOrderedAddMonoid R]

def Within (d : R) (xs : List R) : Prop := ∀ x ∈ xs, ∀ y ∈ xs, x ≤ y + d

-- Where one row falls the other one rises, so their differences do not add up.
theorem Within.combine {d : R} {xs ys : List R} (length : xs.length = ys.length)
    (xsFalling : xs.Pairwise (· ≥ ·)) (ysFalling : ys.Pairwise (· ≥ ·)) (xsWithin : Within d xs)
    (ysWithin : Within d ys) : Within d (List.zipWith (· + ·) xs ys.reverse) := by
  have rising : ys.reverse.Pairwise (· ≤ ·) := by rwa [List.pairwise_reverse]
  intro a aMem b bMem
  obtain ⟨i, iIn, rfl⟩ := List.getElem_of_mem aMem
  obtain ⟨j, jIn, rfl⟩ := List.getElem_of_mem bMem
  simp only [List.length_zipWith, List.length_reverse] at iIn jIn
  simp only [List.getElem_zipWith]
  have ix : i < xs.length := by omega
  have jx : j < xs.length := by omega
  have iy : i < ys.reverse.length := by simp only [List.length_reverse]; omega
  have jy : j < ys.reverse.length := by simp only [List.length_reverse]; omega
  rcases Nat.lt_trichotomy i j with less | rfl | more
  · have right := List.pairwise_iff_getElem.mp rising i j iy jy less
    calc xs[i] + ys.reverse[i] ≤ (xs[j] + d) + ys.reverse[j] :=
          add_le_add (xsWithin _ (List.getElem_mem ix) _ (List.getElem_mem jx)) right
      _ = xs[j] + ys.reverse[j] + d := add_right_comm _ _ _
  · calc xs[i] + ys.reverse[i] ≤ (xs[i] + d) + ys.reverse[i] :=
          add_le_add_left (xsWithin _ (List.getElem_mem ix) _ (List.getElem_mem ix)) _
      _ = xs[i] + ys.reverse[i] + d := add_right_comm _ _ _
  · have left := List.pairwise_iff_getElem.mp xsFalling j i jx ix more
    have right := ysWithin _ (List.mem_reverse.mp (List.getElem_mem iy)) _ (List.mem_reverse.mp (List.getElem_mem jy))
    calc xs[i] + ys.reverse[i] ≤ xs[j] + (ys.reverse[j] + d) := add_le_add left right
      _ = xs[j] + ys.reverse[j] + d := (add_assoc _ _ _).symm

end Spread

section Bags

variable {α : Type} {xs ys : List (List α)}

def Full (bags : List (List α)) : Prop := ∀ bag ∈ bags, bag ≠ []

def Thin (bags : List (List α)) : Prop := ∀ bag ∈ bags, bag.length ≤ 1

/-- Behind an empty bag there are only empty ones. -/
def EmptiesLast (bags : List (List α)) : Prop := bags.Pairwise fun bag later => bag = [] → later = []

def crossed (xs ys : List (List α)) : List (List α) := List.zipWith (· ++ ·) xs ys.reverse

theorem zipWith_flatten (length : xs.length = ys.length) :
    (List.zipWith (· ++ ·) xs ys).flatten.Perm (xs.flatten ++ ys.flatten) := by
  induction xs generalizing ys with
  | nil =>
    obtain rfl := List.length_eq_zero_iff.mp length.symm
    exact .refl _
  | cons a as ih =>
    cases ys with
    | nil => simp at length
    | cons b bs =>
      simp only [List.zipWith_cons_cons, List.flatten_cons, List.append_assoc]
      refine List.Perm.append_left a (((ih (by simpa using length)).append_left b).trans ?_)
      rw [← List.append_assoc, ← List.append_assoc]
      exact List.perm_append_comm.append_right _

theorem crossed_flatten (length : xs.length = ys.length) :
    (crossed xs ys).flatten.Perm (xs.flatten ++ ys.flatten) :=
  (zipWith_flatten (by simpa using length)).trans ((ys.reverse_perm.flatten).append_left _)

theorem EmptiesLast.from (last : EmptiesLast xs) {i j : Nat} (later : i ≤ j) (within : j < xs.length)
    (empty : xs[i] = []) : xs[j] = [] := by
  rcases Nat.lt_or_eq_of_le later with less | rfl
  · exact List.pairwise_iff_getElem.mp last i j (by omega) within less empty
  · exact empty

-- A place empty in both rows leaves every other place to one of them.
theorem crossed_full_or_thin (length : xs.length = ys.length) (xsLast : EmptiesLast xs)
    (ysLast : EmptiesLast ys) (xsEither : Full xs ∨ Thin xs) (ysEither : Full ys ∨ Thin ys) :
    Full (crossed xs ys) ∨ Thin (crossed xs ys) := by
  by_cases full : Full (crossed xs ys)
  · exact .inl full
  right
  have place : ∃ bag ∈ crossed xs ys, bag = [] := by
    by_contra none
    exact full fun bag member empty => none ⟨bag, member, empty⟩
  obtain ⟨bag, member, empty⟩ := place
  obtain ⟨i, inside, rfl⟩ := List.getElem_of_mem member
  simp only [crossed, List.length_zipWith, List.length_reverse] at inside
  simp only [crossed, List.getElem_zipWith, List.append_eq_nil_iff] at empty
  have ix : i < xs.length := by omega
  have iy : ys.length - 1 - i < ys.length := by omega
  obtain ⟨left, right⟩ := empty
  rw [List.getElem_reverse] at right
  have xsThin : Thin xs := xsEither.resolve_left fun all => all _ (List.getElem_mem ix) left
  have ysThin : Thin ys := ysEither.resolve_left fun all => all _ (List.getElem_mem iy) right
  intro other otherMem
  obtain ⟨j, within, rfl⟩ := List.getElem_of_mem otherMem
  simp only [crossed, List.length_zipWith, List.length_reverse] at within
  have jx : j < xs.length := by omega
  simp only [crossed, List.getElem_zipWith, List.length_append]
  rw [List.getElem_reverse]
  have jy : ys.length - 1 - j < ys.length := by omega
  rcases Nat.le_total i j with later | earlier
  · rw [xsLast.from later jx left]
    simpa using ysThin _ (List.getElem_mem jy)
  · rw [ysLast.from (by omega) jy right]
    simpa using xsThin _ (List.getElem_mem jx)

theorem Thin.length_le (thin : Thin xs) : xs.flatten.length ≤ xs.length := by
  induction xs with
  | nil => exact le_rfl
  | cons x xs ih =>
    obtain ⟨one, rest⟩ := List.forall_mem_cons.mp thin
    have others := ih rest
    simp only [List.length_cons, List.flatten_cons, List.length_append]
    omega

theorem Thin.full (thin : Thin xs) (enough : xs.length ≤ xs.flatten.length) : Full xs := by
  induction xs with
  | nil => exact fun bag member => absurd member List.not_mem_nil
  | cons x xs ih =>
    obtain ⟨one, rest⟩ := List.forall_mem_cons.mp thin
    have atMost := Thin.length_le rest
    simp only [List.length_cons, List.flatten_cons, List.length_append] at enough
    refine List.forall_mem_cons.mpr ⟨fun empty => ?_, ih rest (by omega)⟩
    rw [empty, List.length_nil] at enough
    omega

end Bags

end Differencing
