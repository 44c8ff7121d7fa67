import Mathlib.Logic.Relation
import Mathlib.Tactic.Common

set_option autoImplicit false

namespace Program

/-- An environment a program can query; only admitted answers can come back. -/
structure Signature where
  Request : Type
  Answer : Request → Type
  Admits : (request : Request) → Answer request → Prop

inductive Prog (S : Signature) (ε α : Type) : Type where
  | pure (value : α)
  | raise (error : ε)
  | draw (request : S.Request) (next : S.Answer request → Prog S ε α)

namespace Prog

variable {S : Signature} {ε α β σ : Type}

def bind : Prog S ε α → (α → Prog S ε β) → Prog S ε β
  | .pure value, f => f value
  | .raise error, _ => .raise error
  | .draw request next, f => .draw request fun answer => (next answer).bind f

instance : Monad (Prog S ε) where
  pure := .pure
  bind := .bind

def ofExcept : Except ε α → Prog S ε α
  | .ok value => .pure value
  | .error error => .raise error

-- try: ... except Exception: the handler sees the error as a value.
def attempt : Prog S ε α → Prog S ε (Except ε α)
  | .pure value => .pure (.ok value)
  | .raise error => .pure (.error error)
  | .draw request next => .draw request fun answer => (next answer).attempt

def Outcome : Prog S ε α → Except ε α → Prop
  | .pure value, result => result = .ok value
  | .raise error, result => result = .error error
  | .draw request next, result =>
      ∃ answer, S.Admits request answer ∧ (next answer).Outcome result

def Returns (prog : Prog S ε α) (value : α) : Prop := prog.Outcome (.ok value)

def Raises (prog : Prog S ε α) (error : ε) : Prop := prog.Outcome (.error error)

def Safe (prog : Prog S ε α) : Prop := ∀ error, ¬ prog.Raises error

theorem outcome_bind (prog : Prog S ε α) (f : α → Prog S ε β) (result : Except ε β) :
    (prog >>= f).Outcome result ↔
      (∃ value, prog.Returns value ∧ (f value).Outcome result) ∨
        ∃ error, prog.Raises error ∧ result = .error error := by
  change (prog.bind f).Outcome result ↔ _
  induction prog with
  | pure value => simp [bind, Returns, Raises, Outcome]
  | raise error => simp [bind, Returns, Raises, Outcome]
  | draw request next ih =>
    simp only [bind, Returns, Raises, Outcome] at ih ⊢
    simp only [ih]
    constructor
    · rintro ⟨answer, admitted, ⟨value, returned, h⟩ | ⟨error, raised, h⟩⟩
      · exact .inl ⟨value, ⟨answer, admitted, returned⟩, h⟩
      · exact .inr ⟨error, ⟨answer, admitted, raised⟩, h⟩
    · rintro (⟨value, ⟨answer, admitted, returned⟩, h⟩ | ⟨error, ⟨answer, admitted, raised⟩, h⟩)
      · exact ⟨answer, admitted, .inl ⟨value, returned, h⟩⟩
      · exact ⟨answer, admitted, .inr ⟨error, raised, h⟩⟩

@[simp] theorem returns_bind (prog : Prog S ε α) (f : α → Prog S ε β) (result : β) :
    (prog >>= f).Returns result ↔ ∃ value, prog.Returns value ∧ (f value).Returns result := by
  simp [Returns, outcome_bind]

@[simp] theorem raises_bind (prog : Prog S ε α) (f : α → Prog S ε β) (error : ε) :
    (prog >>= f).Raises error ↔
      (∃ value, prog.Returns value ∧ (f value).Raises error) ∨ prog.Raises error := by
  simp only [Raises, outcome_bind]
  constructor
  · rintro (h | ⟨other, raised, same⟩)
    · exact .inl h
    · exact .inr (Except.error.inj same ▸ raised)
  · rintro (h | raised)
    · exact .inl h
    · exact .inr ⟨error, raised, rfl⟩

@[simp] theorem returns_pure (value result : α) :
    (Pure.pure value : Prog S ε α).Returns result ↔ result = value := by
  change (Prog.pure value).Outcome (.ok result) ↔ _
  simp [Outcome]

@[simp] theorem raises_pure (value : α) (error : ε) :
    (Pure.pure value : Prog S ε α).Raises error ↔ False := by
  change (Prog.pure value).Outcome (.error error) ↔ _
  simp [Outcome]

@[simp] theorem returns_raise (error : ε) (result : α) :
    (Prog.raise error : Prog S ε α).Returns result ↔ False := by
  simp [Returns, Outcome]

@[simp] theorem raises_raise (error other : ε) :
    (Prog.raise error : Prog S ε α).Raises other ↔ other = error := by
  simp [Raises, Outcome]

@[simp] theorem returns_ofExcept (result : Except ε α) (value : α) :
    (ofExcept result : Prog S ε α).Returns value ↔ result = .ok value := by
  cases result <;> simp [ofExcept, Returns, Outcome, eq_comm]

@[simp] theorem raises_ofExcept (result : Except ε α) (error : ε) :
    (ofExcept result : Prog S ε α).Raises error ↔ result = .error error := by
  cases result <;> simp [ofExcept, Raises, Outcome, eq_comm]

@[simp] theorem returns_attempt (prog : Prog S ε α) (result : Except ε α) :
    prog.attempt.Returns result ↔ prog.Outcome result := by
  induction prog with
  | pure value => simp [attempt, Returns, Outcome]
  | raise error => simp [attempt, Returns, Outcome]
  | draw request next ih =>
    simp only [Returns] at ih
    simp [attempt, Returns, Outcome, ih]

@[simp] theorem raises_attempt (prog : Prog S ε α) (error : ε) :
    prog.attempt.Raises error ↔ False := by
  induction prog with
  | pure value => simp [attempt, Raises, Outcome]
  | raise error => simp [attempt, Raises, Outcome]
  | draw request next ih =>
    simp only [Raises] at ih
    simp [attempt, Raises, Outcome, ih]

theorem outcome_cases {prog : Prog S ε α} {result : Except ε α} (h : prog.Outcome result) :
    (∃ value, result = .ok value ∧ prog.Returns value) ∨
      ∃ error, result = .error error ∧ prog.Raises error := by
  cases result with
  | ok value => exact .inl ⟨value, rfl, h⟩
  | error error => exact .inr ⟨error, rfl, h⟩

structure Machine (S : Signature) (σ : Type) where
  answer : σ → (request : S.Request) → S.Answer request
  next : σ → S.Request → σ
  admitted : ∀ state request, S.Admits request (answer state request)

def run (machine : Machine S σ) : Prog S ε α → σ → Except ε α × σ
  | .pure value, state => (.ok value, state)
  | .raise error, state => (.error error, state)
  | .draw request next, state =>
      (next (machine.answer state request)).run machine (machine.next state request)

theorem run_outcome (machine : Machine S σ) (prog : Prog S ε α) (state : σ) :
    prog.Outcome (prog.run machine state).1 := by
  induction prog generalizing state with
  | pure value => rfl
  | raise error => rfl
  | draw request next ih =>
    exact ⟨machine.answer state request, machine.admitted state request, ih _ _⟩

theorem returns_of_run {machine : Machine S σ} {prog : Prog S ε α} {state : σ} {value : α}
    (h : (prog.run machine state).1 = .ok value) : prog.Returns value := by
  have outcome := run_outcome machine prog state
  rwa [h] at outcome

theorem run_bind (machine : Machine S σ) (prog : Prog S ε α) (f : α → Prog S ε β) (state : σ) :
    (prog >>= f).run machine state =
      match prog.run machine state with
      | (.ok value, later) => (f value).run machine later
      | (.error error, later) => (.error error, later) := by
  change (prog.bind f).run machine state = _
  induction prog generalizing state with
  | pure value => rfl
  | raise error => rfl
  | draw request next ih => exact ih _ _

theorem run_attempt (machine : Machine S σ) (prog : Prog S ε α) (state : σ) :
    prog.attempt.run machine state =
      (.ok (prog.run machine state).1, (prog.run machine state).2) := by
  induction prog generalizing state with
  | pure value => rfl
  | raise error => rfl
  | draw request next ih => exact ih _ _

end Prog

end Program
