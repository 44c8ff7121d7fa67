import Mathlib.Data.List.Basic
import Mathlib.Logic.Relation
import Mathlib.Tactic.Common

set_option autoImplicit false

-- Threads that take turns acting on one state.
namespace Interleaving

variable {σ α : Type} (act : σ → α → σ) (same : σ → σ → Prop)

abbrev Config (σ α : Type) := List (List α) × σ

inductive Step : Config σ α → Config σ α → Prop
  | perform (before : List (List α)) (action : α) (rest : List α) (after : List (List α)) (state : σ) :
      Step (before ++ (action :: rest) :: after, state) (before ++ rest :: after, act state action)

def Runs : Config σ α → Config σ α → Prop := Relation.ReflTransGen (Step act)

def Finished (config : Config σ α) : Prop := ∀ thread ∈ config.1, thread = []

def sequential (config : Config σ α) : σ := config.1.flatten.foldl act config.2

structure Congruence : Prop where
  equivalence : Equivalence same
  kept : ∀ {first second}, same first second → ∀ action, same (act first action) (act second action)

def Commutes (first second : α) : Prop :=
  ∀ state, same (act (act state first) second) (act (act state second) first)

def Independent (threads : List (List α)) : Prop :=
  threads.Pairwise fun thread later => ∀ first ∈ thread, ∀ second ∈ later, Commutes act same first second

variable {act} {same} {config next : Config σ α}

section Order

theorem Congruence.foldl (congruence : Congruence act same) {first second : σ} (alike : same first second)
    (actions : List α) : same (actions.foldl act first) (actions.foldl act second) := by
  induction actions generalizing first second with
  | nil => exact alike
  | cons action actions ih => exact ih (congruence.kept alike action)

theorem Congruence.moved (congruence : Congruence act same) {actions : List α} {action : α}
    (commutes : ∀ other ∈ actions, Commutes act same other action) (rest : List α) (state : σ) :
    same ((actions ++ action :: rest).foldl act state) ((actions ++ rest).foldl act (act state action)) := by
  induction actions generalizing state with
  | nil => exact congruence.equivalence.refl _
  | cons other actions ih =>
    obtain ⟨first, commutes⟩ := List.forall_mem_cons.mp commutes
    have swapped := congruence.foldl (first state) (actions ++ rest)
    exact congruence.equivalence.trans (ih commutes (act state other)) swapped

theorem Step.kept (congruence : Congruence act same) (step : Step act config next)
    (independent : Independent act same config.1) :
    Independent act same next.1 ∧ same (sequential act config) (sequential act next) := by
  obtain ⟨before, action, rest, after, state⟩ := step
  have smaller : ∀ first, first ∈ rest → first ∈ action :: rest := fun first member => List.mem_cons_of_mem _ member
  obtain ⟨front, behind, across⟩ := List.pairwise_append.mp independent
  obtain ⟨here, back⟩ := List.pairwise_cons.mp behind
  constructor
  · refine List.pairwise_append.mpr ⟨front, List.pairwise_cons.mpr ⟨?_, back⟩, ?_⟩
    · exact fun thread member first inside => here thread member first (smaller first inside)
    · intro thread member other inside first among second later
      rcases List.mem_cons.mp inside with rfl | inside
      · exact across thread member _ (by simp) first among second (smaller second later)
      · exact across thread member other (by simp [inside]) first among second later
  · have commutes : ∀ other ∈ before.flatten, Commutes act same other action := by
      intro other member
      obtain ⟨thread, inside, among⟩ := List.mem_flatten.mp member
      exact across thread inside (action :: rest) (by simp) other among action (by simp)
    simp only [sequential, List.flatten_append, List.flatten_cons, List.cons_append]
    exact congruence.moved commutes _ state

theorem Runs.kept (congruence : Congruence act same) (runs : Runs act config next)
    (independent : Independent act same config.1) : same (sequential act config) (sequential act next) := by
  have each : Independent act same next.1 ∧ same (sequential act config) (sequential act next) := by
    induction runs with
    | refl => exact ⟨independent, congruence.equivalence.refl _⟩
    | tail _ step ih =>
      obtain ⟨still, alike⟩ := step.kept congruence ih.1
      exact ⟨still, congruence.equivalence.trans ih.2 alike⟩
  exact each.2

theorem Finished.sequential (finished : Finished config) : sequential act config = config.2 := by
  have nothing : config.1.flatten = [] := List.flatten_eq_nil_iff.mpr finished
  rw [Interleaving.sequential, nothing]
  rfl

end Order

section Progress

theorem step_of_unfinished (unfinished : ¬ Finished config) : ∃ next, Step act config next := by
  obtain ⟨threads, state⟩ := config
  rw [Finished] at unfinished
  simp only [not_forall] at unfinished
  obtain ⟨thread, member, filled⟩ := unfinished
  obtain ⟨before, after, rfl⟩ := List.append_of_mem member
  obtain ⟨action, rest, rfl⟩ := List.exists_cons_of_ne_nil filled
  exact ⟨_, .perform before action rest after state⟩

theorem Step.shorter (step : Step act config next) : next.1.flatten.length + 1 = config.1.flatten.length := by
  obtain ⟨before, action, rest, after, state⟩ := step
  simp only [List.flatten_append, List.flatten_cons, List.length_append, List.length_cons]
  omega

theorem exists_finished (config : Config σ α) : ∃ next, Runs act config next ∧ Finished next := by
  induction size : config.1.flatten.length using Nat.strongRecOn generalizing config with
  | _ size ih =>
  by_cases finished : Finished config
  · exact ⟨config, .refl, finished⟩
  · obtain ⟨next, step⟩ := @step_of_unfinished σ α act config finished
    have smaller := step.shorter
    obtain ⟨last, runs, done⟩ := ih next.1.flatten.length (by omega) next rfl
    exact ⟨last, runs.head step, done⟩

end Progress

theorem Runs.invariant {inv : σ → Prop} (runs : Runs act config next)
    (kept : ∀ state action, inv state → inv (act state action)) (initial : inv config.2) : inv next.2 := by
  induction runs with
  | refl => exact initial
  | tail _ step ih =>
    obtain ⟨_, action, _, _, state⟩ := step
    exact kept state action ih

end Interleaving
