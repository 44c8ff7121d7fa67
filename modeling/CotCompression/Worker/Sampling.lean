import CotCompression.Generator.Sample
import CotCompression.Shared.Loop
import CotCompression.Shared.RoundRobin

set_option autoImplicit false

namespace CotCompression

open Program (Prog)
open Program.Prog (Reaches CanLeave Steps LeavesAfter iterate)
open RoundRobin (leastIndex least shares quota)

structure Record where
  problem : Text
  question : Text
  solution : Text
  op : Int
  id : Int
  template : Text
  mode : Text
  length : Text
  d : Int
  deriving DecidableEq

/-- The variables of the `while True` loops; work_function leaves `counts` alone. -/
structure LoopState where
  items : List (List Record)
  counts : List Nat
  lines : Nat
  deriving DecidableEq

structure Sampling (α : Type) where
  listoperations : List Int
  numPerWorker : Int
  tally : LoopState → List Nat
  draw : Int → Py α
  op : α → Int
  file : Nat → α → LoopState → Except PyError LoopState

namespace Sampling

variable {α : Type} (loop : Sampling α)

def start : LoopState :=
  ⟨List.replicate loop.listoperations.length [], List.replicate loop.listoperations.length 0, 0⟩

-- One pass of `while True`: inl goes round again, inr is the break.
def pass (state : LoopState) : Py (LoopState ⊕ LoopState) := do
  let minIdx := leastIndex (loop.tally state)
  let targetOp ← .ofExcept (item loop.listoperations minIdx)
  match ← (loop.draw targetOp).attempt with
  | .error _ => return .inl state
  | .ok drawn =>
    let state ←
      match loop.listoperations.findIdx? fun askOp => loop.op drawn == askOp with
      | some idx => .ofExcept (loop.file idx drawn state)
      | none => pure state
    let newLines := least (loop.tally state)
    let state := if state.lines < newLines then { state with lines := newLines } else state
    return if loop.numPerWorker ≤ state.lines then .inr state else .inl state

structure Lawful (records : α → List Record) : Prop where
  nonempty : loop.listoperations ≠ []
  op_eq : ∀ op drawn, (loop.draw op).Returns drawn → loop.op drawn = op
  tally_start : loop.tally loop.start = List.replicate loop.listoperations.length 0
  tally_lines : ∀ state lines, loop.tally { state with lines } = loop.tally state
  filed : ∀ op drawn idx state, (loop.draw op).Returns drawn → ∃ after,
    loop.file idx drawn state = .ok after ∧
      after.items = state.items.modify idx (· ++ records drawn) ∧
      loop.tally after = (loop.tally state).modify idx (· + 1) ∧ after.lines = state.lines

def settle (state : LoopState) : LoopState :=
  let newLines := least (loop.tally state)
  if state.lines < newLines then { state with lines := newLines } else state

def leaveOrStay (state : LoopState) : LoopState ⊕ LoopState :=
  if loop.numPerWorker ≤ state.lines then .inr state else .inl state

variable {loop} {records : α → List Record}

theorem settle_tally (lawful : loop.Lawful records) (state : LoopState) :
    loop.tally (loop.settle state) = loop.tally state := by
  simp only [settle]
  split
  · exact lawful.tally_lines _ _
  · rfl

theorem settle_items (state : LoopState) : (loop.settle state).items = state.items := by
  simp only [settle]
  split <;> rfl

theorem settle_lines (state : LoopState) :
    (loop.settle state).lines = max state.lines (least (loop.tally state)) := by
  simp only [settle]
  split
  · next more => exact (Nat.max_eq_right more.le).symm
  · next less => exact (Nat.max_eq_left (Nat.le_of_not_lt less)).symm

theorem findIdx_getElem {ops : List Int} {idx : Nat} {op : Int} (found : ops[idx]? = some op) :
    ∃ first, (ops.findIdx? fun askOp => op == askOp) = some first ∧ first ≤ idx ∧
      ops[first]? = some op := by
  obtain ⟨within, same⟩ := List.getElem?_eq_some_iff.mp found
  obtain ⟨first, is⟩ : ∃ first, (ops.findIdx? fun askOp => op == askOp) = some first :=
    Option.isSome_iff_exists.mp (List.findIdx?_isSome.trans
      (List.any_eq_true.mpr ⟨op, same ▸ List.getElem_mem within, by simp⟩))
  obtain ⟨inside, holds, before⟩ := List.findIdx?_eq_some_iff_getElem.mp is
  refine ⟨first, is, ?_, ?_⟩
  · by_contra later
    have different := before idx (by omega)
    simp [same] at different
  · rw [List.getElem?_eq_getElem inside, (by simpa using holds : op = ops[first])]

theorem pass_returns (lawful : loop.Lawful records) {state : LoopState} {target : Int}
    (asked : loop.listoperations[leastIndex (loop.tally state)]? = some target)
    {result : LoopState ⊕ LoopState} :
    (loop.pass state).Returns result ↔
      (∃ error, (loop.draw target).Raises error ∧ result = .inl state) ∨
        ∃ drawn, (loop.draw target).Returns drawn ∧ ∃ first after,
          (loop.listoperations.findIdx? fun askOp => target == askOp) = some first ∧
            loop.file first drawn state = .ok after ∧ result = loop.leaveOrStay (loop.settle after) := by
  have get : item loop.listoperations (leastIndex (loop.tally state)) = .ok target := by
    simp [item, asked]
  obtain ⟨first, found, _, _⟩ := findIdx_getElem asked
  rw [pass, get]
  simp only [Prog.returns_bind, Prog.returns_ofExcept, Except.ok.injEq]
  constructor
  · rintro ⟨_, rfl, outcome, attempted, returned⟩
    rw [Prog.returns_attempt] at attempted
    rcases Prog.outcome_cases attempted with ⟨drawn, rfl, drew⟩ | ⟨error, rfl, raised⟩
    · right
      have op := lawful.op_eq _ _ drew
      simp only [op, found, Prog.returns_bind, Prog.returns_ofExcept, Prog.returns_pure] at returned
      obtain ⟨after, filed, rfl⟩ := returned
      exact ⟨drawn, drew, first, after, found, filed, rfl⟩
    · left
      exact ⟨error, raised, (Prog.returns_pure _ _).mp returned⟩
  · rintro (⟨error, raised, rfl⟩ | ⟨drawn, drew, first', after, found', filed, rfl⟩)
    · exact ⟨target, rfl, .error error, (Prog.returns_attempt _ _).mpr raised,
        (Prog.returns_pure _ _).mpr rfl⟩
    · refine ⟨target, rfl, .ok drawn, (Prog.returns_attempt _ _).mpr drew, ?_⟩
      have op := lawful.op_eq _ _ drew
      simp only [op, found', Prog.returns_bind, Prog.returns_ofExcept, Prog.returns_pure]
      exact ⟨after, filed, rfl⟩

theorem pass_safe (lawful : loop.Lawful records) {state : LoopState} {target : Int}
    (asked : loop.listoperations[leastIndex (loop.tally state)]? = some target) :
    (loop.pass state).Safe := by
  have get : item loop.listoperations (leastIndex (loop.tally state)) = .ok target := by
    simp [item, asked]
  obtain ⟨first, found, _, _⟩ := findIdx_getElem asked
  intro error raised
  rw [pass, get] at raised
  simp only [Prog.raises_bind, Prog.returns_ofExcept, Prog.raises_ofExcept, Prog.raises_attempt,
    Except.ok.injEq, reduceCtorEq, or_false] at raised
  obtain ⟨_, rfl, outcome, attempted, raised⟩ := raised
  rw [Prog.returns_attempt] at attempted
  rcases Prog.outcome_cases attempted with ⟨drawn, rfl, drew⟩ | ⟨error, rfl, _⟩
  · obtain ⟨after, filed, _⟩ := lawful.filed _ drawn first state drew
    simp only [lawful.op_eq _ _ drew, found, Prog.raises_bind, Prog.returns_ofExcept, Prog.raises_ofExcept,
      filed, Prog.raises_pure] at raised
    simp at raised
  · simp at raised

end Sampling

end CotCompression
