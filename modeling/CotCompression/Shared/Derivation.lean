import Mathlib.Data.List.Basic
import Mathlib.Tactic.Common

set_option autoImplicit false

-- Lines written one after the other, each allowed by a rule from what stands before it.
namespace Derivation

variable {α : Type} {rule : List α → α → Prop}

def Derives (rule : List α → α → Prop) : List α → List α → Prop
  | _, [] => True
  | known, line :: rest => rule known line ∧ Derives rule (known ++ [line]) rest

theorem derives_append {known first second : List α} :
    Derives rule known (first ++ second) ↔
      Derives rule known first ∧ Derives rule (known ++ first) second := by
  induction first generalizing known with
  | nil => simp [Derives]
  | cons line rest ih => simp [Derives, ih, and_assoc]

theorem derives_singleton {known : List α} {line : α} :
    Derives rule known [line] ↔ rule known line := by
  simp [Derives]

theorem Derives.rule_at {known lines before after : List α} {line : α}
    (derived : Derives rule known lines) (split : lines = before ++ line :: after) :
    rule (known ++ before) line := by
  rw [split] at derived
  exact (derives_append.mp derived).2.1

theorem derives_of_forall {known lines : List α} (each : ∀ line ∈ lines, ∀ known, rule known line) :
    Derives rule known lines := by
  induction lines generalizing known with
  | nil => trivial
  | cons line rest ih =>
    exact ⟨each line (by simp) known, ih fun line member => each line (List.mem_cons_of_mem _ member)⟩

end Derivation
