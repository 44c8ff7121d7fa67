import Mathlib.Data.List.Nodup
import Mathlib.Data.List.Perm.Basic
import Mathlib.Tactic.Common

set_option autoImplicit false

-- Cutting a shuffled list in two, seen through a key of its entries.
namespace Holdout

variable {α β : Type} {f : α → β} {xs : List α}

def Apart (f : α → β) (left right : List α) : Prop := ∀ x ∈ left, ∀ y ∈ right, f x ≠ f y

theorem apart_of_nodup (distinct : (xs.map f).Nodup) (cut : Nat) : Apart f (xs.take cut) (xs.drop cut) := by
  rw [← List.take_append_drop cut xs, List.map_append] at distinct
  intro x left y right same
  exact List.disjoint_of_nodup_append distinct (List.mem_map_of_mem left)
    (same ▸ List.mem_map_of_mem right)

theorem exists_repeated (repeated : ¬ (xs.map f).Nodup) :
    ∃ x y others, xs.Perm (x :: y :: others) ∧ f x = f y := by
  induction xs with
  | nil => simp at repeated
  | cons x xs ih =>
    by_cases again : f x ∈ xs.map f
    · obtain ⟨y, member, same⟩ := List.mem_map.mp again
      obtain ⟨before, after, rfl⟩ := List.append_of_mem member
      exact ⟨x, y, before ++ after, List.perm_middle.cons x, same.symm⟩
    · have rest : ¬ (xs.map f).Nodup := fun distinct => repeated (List.nodup_cons.mpr ⟨again, distinct⟩)
      obtain ⟨y, z, others, perm, same⟩ := ih rest
      refine ⟨y, z, x :: others, (perm.cons x).trans ?_, same⟩
      exact (List.Perm.swap y x _).trans ((List.Perm.swap z x others).cons y)

theorem exists_not_apart (repeated : ¬ (xs.map f).Nodup) {cut : Nat} (positive : 1 ≤ cut)
    (within : cut < xs.length) : ∃ ys : List α, ys.Perm xs ∧ ¬ Apart f (ys.take cut) (ys.drop cut) := by
  obtain ⟨x, y, others, perm, same⟩ := exists_repeated repeated
  refine ⟨x :: (others ++ [y]), ?_, fun apart => ?_⟩
  · exact ((List.perm_append_singleton y others).cons x).trans perm.symm
  · have length : xs.length = others.length + 2 := perm.length_eq
    obtain ⟨cut, rfl⟩ := Nat.exists_eq_add_of_le' positive
    refine apart x (by simp) y ?_ same
    rw [List.drop_succ_cons, List.drop_append_of_le_length (by omega)]
    simp

theorem apart_iff {cut : Nat} (positive : 1 ≤ cut) :
    (∀ ys : List α, ys.Perm xs → Apart f (ys.take cut) (ys.drop cut)) ↔
      (xs.map f).Nodup ∨ xs.length ≤ cut := by
  constructor
  · intro apart
    by_contra neither
    rw [not_or, Nat.not_le] at neither
    obtain ⟨ys, perm, mixed⟩ := exists_not_apart neither.1 positive neither.2
    exact mixed (apart ys perm)
  · rintro (distinct | all) ys perm
    · exact apart_of_nodup ((perm.map f).nodup_iff.mpr distinct) cut
    · intro x _ y right
      rw [List.drop_eq_nil_of_le (by rw [perm.length_eq]; exact all)] at right
      exact absurd right List.not_mem_nil

end Holdout
