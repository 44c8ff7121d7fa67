import CotCompression.Shared.Program

set_option autoImplicit false

namespace Program.Prog

variable {S : Signature} {ε α β α' β' σ : Type}

/-- A body hands back the next state (inl) or the value the loop is left with (inr). -/
def Steps (body : α → Prog S ε (α ⊕ β)) (state later : α) : Prop :=
  (body state).Returns (.inl later)

def Reaches (body : α → Prog S ε (α ⊕ β)) : α → α → Prop :=
  Relation.ReflTransGen (Steps body)

inductive CanLeave (body : α → Prog S ε (α ⊕ β)) : α → Prop where
  | leave {state : α} {value : β} (left : (body state).Returns (.inr value)) : CanLeave body state
  | escape {state : α} {error : ε} (raised : (body state).Raises error) : CanLeave body state
  | again {state later : α} (step : Steps body state later) (rest : CanLeave body later) :
      CanLeave body state

theorem reaches_invariant {body : α → Prog S ε (α ⊕ β)} {start state : α} (inv : α → Prop)
    (initial : inv start) (preserved : ∀ before after, inv before → Steps body before after → inv after)
    (reached : Reaches body start state) : inv state := by
  induction reached with
  | refl => exact initial
  | tail _ step ih => exact preserved _ _ ih step

theorem not_canLeave {body : α → Prog S ε (α ⊕ β)} {start : α} (inv : α → Prop)
    (initial : inv start) (safe : ∀ state, inv state → (body state).Safe)
    (stays : ∀ state value, inv state → ¬ (body state).Returns (.inr value))
    (preserved : ∀ before after, inv before → Steps body before after → inv after) :
    ¬ CanLeave body start := by
  intro leaves
  induction leaves with
  | leave left => exact stays _ _ initial left
  | escape raised => exact safe _ initial _ raised
  | again step _ ih => exact ih (preserved _ _ initial step)

theorem CanLeave.exits {body : α → Prog S ε (α ⊕ β)} {start state : α}
    (safe : ∀ state, Reaches body start state → (body state).Safe) (reached : Reaches body start state)
    (leaves : CanLeave body state) :
    ∃ last value, Reaches body start last ∧ (body last).Returns (.inr value) := by
  induction leaves with
  | leave left => exact ⟨_, _, reached, left⟩
  | escape raised => exact absurd raised (safe _ reached _)
  | again step _ ih => exact ih (reached.tail step)

def iterate (body : α → Prog S ε (α ⊕ β)) : Nat → α → Prog S ε (α ⊕ β)
  | 0, state => Pure.pure (.inl state)
  | rounds + 1, state => do
    match ← body state with
    | .inl later => iterate body rounds later
    | .inr value => Pure.pure (.inr value)

theorem iterate_invariant {body : α → Prog S ε (α ⊕ β)} {inv : α → Prop} {post : β → Prop}
    (again : ∀ state later, inv state → (body state).Returns (.inl later) → inv later)
    (leave : ∀ state value, inv state → (body state).Returns (.inr value) → post value) {rounds : Nat} {state : α}
    (initial : inv state) {result : α ⊕ β} (returned : (iterate body rounds state).Returns result) :
    result.elim inv post := by
  induction rounds generalizing state with
  | zero =>
    obtain rfl := (returns_pure _ _).mp returned
    exact initial
  | succ rounds ih =>
    simp only [iterate, returns_bind] at returned
    obtain ⟨later | value, stepped, returned⟩ := returned
    · exact ih (again state later initial stepped) returned
    · obtain rfl := (returns_pure _ _).mp returned
      exact leave state value initial stepped

structure LeavesAfter (body : α → Prog S ε (α ⊕ β)) (total : Nat) (inv : Nat → α → Prop)
    (post : β → Prop) : Prop where
  safe : ∀ passes state, passes < total → inv passes state → (body state).Safe
  again : ∀ passes state later, passes < total → inv passes state →
    (body state).Returns (.inl later) → passes + 1 < total ∧ inv (passes + 1) later
  leave : ∀ passes state value, passes < total → inv passes state →
    (body state).Returns (.inr value) → passes + 1 = total ∧ post value

namespace LeavesAfter

variable {body : α → Prog S ε (α ⊕ β)} {total : Nat} {inv : Nat → α → Prop} {post : β → Prop}

theorem iterate_safe (loop : LeavesAfter body total inv post) (rounds passes : Nat) (state : α)
    (within : passes < total) (holds : inv passes state) : (iterate body rounds state).Safe := by
  induction rounds generalizing passes state with
  | zero => intro error raised; simp [iterate] at raised
  | succ rounds ih =>
    intro error raised
    simp only [iterate, raises_bind] at raised
    rcases raised with ⟨step | value, returned, raised⟩ | raised
    · have next := loop.again passes state step within holds returned
      exact ih (passes + 1) step next.1 next.2 error raised
    · simp at raised
    · exact loop.safe passes state within holds error raised

theorem iterate_inl (loop : LeavesAfter body total inv post) (rounds passes : Nat) (state later : α)
    (within : passes < total) (holds : inv passes state)
    (returned : (iterate body rounds state).Returns (.inl later)) :
    passes + rounds < total ∧ inv (passes + rounds) later := by
  induction rounds generalizing passes state with
  | zero =>
    simp only [iterate, returns_pure, Sum.inl.injEq] at returned
    subst returned
    exact ⟨within, holds⟩
  | succ rounds ih =>
    simp only [iterate, returns_bind] at returned
    obtain ⟨step | value, stepped, returned⟩ := returned
    · have next := loop.again passes state step within holds stepped
      have result := ih (passes + 1) step next.1 next.2 returned
      rwa [Nat.add_assoc, Nat.add_comm 1] at result
    · simp at returned

theorem iterate_inr (loop : LeavesAfter body total inv post) (rounds passes : Nat) (state : α)
    (value : β) (within : passes < total) (holds : inv passes state)
    (returned : (iterate body rounds state).Returns (.inr value)) :
    total ≤ passes + rounds ∧ post value := by
  induction rounds generalizing passes state with
  | zero => simp [iterate] at returned
  | succ rounds ih =>
    simp only [iterate, returns_bind] at returned
    obtain ⟨step | left, stepped, returned⟩ := returned
    · have next := loop.again passes state step within holds stepped
      have result := ih (passes + 1) step next.1 next.2 returned
      exact ⟨by omega, result.2⟩
    · simp only [returns_pure, Sum.inr.injEq] at returned
      subst returned
      have last := loop.leave passes state value within holds stepped
      exact ⟨by omega, last.2⟩

theorem reaches (loop : LeavesAfter body total inv post) {start state : α} (positive : 0 < total)
    (initial : inv 0 start) (reached : Reaches body start state) :
    ∃ passes, passes < total ∧ inv passes state := by
  refine reaches_invariant (fun state => ∃ passes, passes < total ∧ inv passes state)
    ⟨0, positive, initial⟩ ?_ reached
  rintro before after ⟨passes, within, holds⟩ step
  exact ⟨passes + 1, loop.again passes before after within holds step⟩

end LeavesAfter

theorem run_iterate_related (machine : Machine S σ) (first : α → Prog S ε (α ⊕ β))
    (second : α' → Prog S ε (α' ⊕ β')) (related : α → α' → Prop) (final : β → β' → Prop)
    (lockstep : ∀ left right state, related left right →
      ((first left).run machine state).2 = ((second right).run machine state).2 ∧
      ((∃ left' right', ((first left).run machine state).1 = .ok (.inl left') ∧
          ((second right).run machine state).1 = .ok (.inl right') ∧ related left' right') ∨
        ∃ value value', ((first left).run machine state).1 = .ok (.inr value) ∧
          ((second right).run machine state).1 = .ok (.inr value') ∧ final value value'))
    (rounds : Nat) (left : α) (right : α') (state : σ) (start : related left right) :
    ((iterate first rounds left).run machine state).2 =
        ((iterate second rounds right).run machine state).2 ∧
      ((∃ left' right', ((iterate first rounds left).run machine state).1 = .ok (.inl left') ∧
          ((iterate second rounds right).run machine state).1 = .ok (.inl right') ∧
          related left' right') ∨
        ∃ value value', ((iterate first rounds left).run machine state).1 = .ok (.inr value) ∧
          ((iterate second rounds right).run machine state).1 = .ok (.inr value') ∧
          final value value') := by
  induction rounds generalizing left right state with
  | zero => exact ⟨rfl, .inl ⟨left, right, rfl, rfl, start⟩⟩
  | succ rounds ih =>
    obtain ⟨same, cases⟩ := lockstep left right state start
    simp only [iterate, run_bind]
    rcases hl : (first left).run machine state with ⟨resultL, laterL⟩
    rcases hr : (second right).run machine state with ⟨resultR, laterR⟩
    simp only [hl, hr] at same cases
    subst same
    rcases cases with ⟨left', right', rfl, rfl, next⟩ | ⟨value, value', rfl, rfl, done⟩
    · exact ih left' right' laterL next
    · exact ⟨rfl, .inr ⟨value, value', rfl, rfl, done⟩⟩

end Program.Prog
