import CotCompression.Worker.Sampling

set_option autoImplicit false

namespace CotCompression

open Program (Prog)
open Program.Prog (Reaches CanLeave Steps LeavesAfter iterate)
open RoundRobin (leastIndex least shares quota)

namespace Sampling

variable {α : Type} {loop : Sampling α} {records : α → List Record}

/-- A state after `passes` values were drawn, dealt to the ops in turn. -/
structure Turn (loop : Sampling α) (records : α → List Record) (passes : Nat) (state : LoopState) :
    Prop where
  tally : loop.tally state = shares loop.listoperations.length passes
  lines : state.lines = passes / loop.listoperations.length
  length : state.items.length = loop.listoperations.length
  blocks : ∀ idx op, loop.listoperations[idx]? = some op → ∃ drawn : List α,
    drawn.length = quota loop.listoperations.length passes idx ∧
      (∀ value ∈ drawn, (loop.draw op).Returns value) ∧
      state.items[idx]? = some (drawn.flatMap records)

theorem Lawful.positive (lawful : loop.Lawful records) : 0 < loop.listoperations.length :=
  List.length_pos_iff.mpr lawful.nonempty

theorem turn_start (lawful : loop.Lawful records) : Turn loop records 0 loop.start where
  tally := by rw [lawful.tally_start, RoundRobin.shares_zero]
  lines := by simp [start]
  length := by simp [start]
  blocks idx op found := by
    refine ⟨[], by simp [quota], by simp, ?_⟩
    have within := (List.getElem?_eq_some_iff.mp found).1
    simp [start, within]

namespace Turn

variable {passes : Nat} {state : LoopState}

theorem asked (turn : Turn loop records passes state) (lawful : loop.Lawful records) :
    leastIndex (loop.tally state) = passes % loop.listoperations.length ∧
      ∃ target, loop.listoperations[leastIndex (loop.tally state)]? = some target := by
  have chosen : leastIndex (loop.tally state) = passes % loop.listoperations.length := by
    rw [turn.tally, RoundRobin.leastIndex_shares _ _ lawful.positive]
  refine ⟨chosen, _, List.getElem?_eq_getElem ?_⟩
  rw [chosen]
  exact Nat.mod_lt _ lawful.positive

theorem lines_succ (turn : Turn loop records passes state) (lawful : loop.Lawful records)
    {after : LoopState} (tally : loop.tally after = shares loop.listoperations.length (passes + 1))
    (lines : after.lines = state.lines) :
    (loop.settle after).lines = (passes + 1) / loop.listoperations.length := by
  rw [settle_lines, tally, RoundRobin.least_shares _ _ lawful.positive, lines, turn.lines]
  exact Nat.max_eq_right (Nat.div_le_div_right (Nat.le_succ _))

theorem file (turn : Turn loop records passes state) (lawful : loop.Lawful records) {target : Int}
    {drawn : α} {after : LoopState}
    (asked : loop.listoperations[passes % loop.listoperations.length]? = some target)
    (drew : (loop.draw target).Returns drawn)
    (filed : loop.file (passes % loop.listoperations.length) drawn state = .ok after) :
    Turn loop records (passes + 1) (loop.settle after) := by
  obtain ⟨made, same, items, counted, lines⟩ :=
    lawful.filed target drawn (passes % loop.listoperations.length) state drew
  obtain rfl := Except.ok.inj (same.symm.trans filed)
  have tally : loop.tally made = shares loop.listoperations.length (passes + 1) := by
    rw [counted, turn.tally, RoundRobin.shares_succ]
  refine ⟨by rw [settle_tally lawful, tally], turn.lines_succ lawful tally lines,
    by rw [settle_items, items, List.length_modify, turn.length], ?_⟩
  intro idx op found
  have within := (List.getElem?_eq_some_iff.mp found).1
  obtain ⟨before, count, each, is⟩ := turn.blocks idx op found
  rw [settle_items, items, List.getElem?_modify, is, RoundRobin.quota_succ _ _ _ within]
  by_cases chosen : passes % loop.listoperations.length = idx
  · obtain rfl : target = op := Option.some.inj (asked.symm.trans (chosen ▸ found))
    refine ⟨before ++ [drawn], by simp [count, chosen], ?_, by simp [chosen]⟩
    intro value member
    rcases List.mem_append.mp member with member | member
    · exact each value member
    · rwa [List.mem_singleton.mp member]
  · exact ⟨before, by simp [count, Ne.symm chosen], each, by simp [chosen]⟩

-- A pass stays where it is or deals one turn, and leaves once every op has its share.
theorem pass (turn : Turn loop records passes state) (lawful : loop.Lawful records)
    (distinct : loop.listoperations.Nodup) {target : Int}
    (asked : loop.listoperations[passes % loop.listoperations.length]? = some target)
    {result : LoopState ⊕ LoopState} (returned : (loop.pass state).Returns result) :
    ((∃ error, (loop.draw target).Raises error) ∧ result = .inl state) ∨
      ∃ after, Turn loop records (passes + 1) after ∧ result = loop.leaveOrStay after := by
  have chosen := (turn.asked lawful).1
  have asked' : loop.listoperations[leastIndex (loop.tally state)]? = some target := by rw [chosen, asked]
  rcases (pass_returns lawful asked').mp returned with
    ⟨error, raised, rfl⟩ | ⟨drawn, drew, first, after, found, filed, rfl⟩
  · exact .inl ⟨⟨error, raised⟩, rfl⟩
  · right
    obtain ⟨first', found', before, same⟩ := findIdx_getElem asked
    obtain rfl : first = first' := Option.some.inj (found.symm.trans found')
    have inside := (List.getElem?_eq_some_iff.mp asked).1
    obtain rfl : first = passes % loop.listoperations.length :=
      (List.getElem?_inj (by omega) distinct).mp (same.trans asked.symm)
    exact ⟨loop.settle after, turn.file lawful asked drew filed, rfl⟩

end Turn

theorem leaveOrStay_turn {passes total : Nat} {state : LoopState} (turn : Turn loop records passes state)
    (lawful : loop.Lawful records) (num : loop.numPerWorker = total) :
    loop.leaveOrStay state =
      if total * loop.listoperations.length ≤ passes then .inr state else .inl state := by
  simp only [leaveOrStay, num, turn.lines, Nat.cast_le, Nat.le_div_iff_mul_le lawful.positive]

-- With pairwise distinct ops that can all be drawn, the loop deals `total` turns to each of them.
theorem leavesAfter (lawful : loop.Lawful records) (distinct : loop.listoperations.Nodup)
    (draws : ∀ op ∈ loop.listoperations, (loop.draw op).Safe) {total : Nat}
    (num : loop.numPerWorker = total) :
    LeavesAfter loop.pass (total * loop.listoperations.length) (Turn loop records)
      (Turn loop records (total * loop.listoperations.length)) := by
  have step {passes : Nat} {state : LoopState} {result : LoopState ⊕ LoopState}
      (turn : Turn loop records passes state) (returned : (loop.pass state).Returns result) :
      ∃ after, Turn loop records (passes + 1) after ∧ result = loop.leaveOrStay after := by
    have within := Nat.mod_lt passes lawful.positive
    have asked := List.getElem?_eq_getElem within
    rcases turn.pass lawful distinct asked returned with ⟨⟨error, raised⟩, _⟩ | next
    · exact absurd raised (draws _ (List.getElem_mem within) error)
    · exact next
  refine ⟨fun passes state _ turn => pass_safe lawful (turn.asked lawful).2.choose_spec, ?_, ?_⟩
  · intro passes state later below turn returned
    obtain ⟨after, next, result⟩ := step turn returned
    rw [leaveOrStay_turn next lawful num] at result
    split at result
    · cases result
    · next more =>
      obtain rfl := Sum.inl.inj result
      exact ⟨by omega, next⟩
  · intro passes state value below turn returned
    obtain ⟨after, next, result⟩ := step turn returned
    rw [leaveOrStay_turn next lawful num] at result
    split at result
    · next last =>
      obtain rfl := Sum.inr.inj result
      obtain whole : passes + 1 = total * loop.listoperations.length := by omega
      exact ⟨whole, whole ▸ next⟩
    · cases result

theorem reaches_turn (lawful : loop.Lawful records) (distinct : loop.listoperations.Nodup) {total : Nat}
    (num : loop.numPerWorker = total) (some : 1 ≤ total) {state : LoopState}
    (reached : Reaches loop.pass loop.start state) :
    ∃ passes, passes < total * loop.listoperations.length ∧ Turn loop records passes state := by
  refine Prog.reaches_invariant (fun state => ∃ passes, passes < total * loop.listoperations.length ∧
    Turn loop records passes state) ⟨0, Nat.mul_pos some lawful.positive, turn_start lawful⟩ ?_ reached
  rintro before after ⟨passes, below, turn⟩ step
  have asked := List.getElem?_eq_getElem (Nat.mod_lt passes lawful.positive)
  rcases turn.pass lawful distinct asked step with ⟨_, same⟩ | ⟨later, next, result⟩
  · exact ⟨passes, below, Sum.inl.inj same ▸ turn⟩
  · rw [leaveOrStay_turn next lawful num] at result
    split at result
    · cases result
    · next more => exact ⟨passes + 1, by omega, Sum.inl.inj result ▸ next⟩

theorem turn_canLeave (lawful : loop.Lawful records) (distinct : loop.listoperations.Nodup)
    (possible : ∀ op ∈ loop.listoperations, ∃ drawn, (loop.draw op).Returns drawn) {total : Nat}
    (num : loop.numPerWorker = total) (passes : Nat) (state : LoopState)
    (below : passes < total * loop.listoperations.length) (turn : Turn loop records passes state) :
    CanLeave loop.pass state := by
  induction h : total * loop.listoperations.length - passes generalizing passes state with
  | zero => omega
  | succ rest ih =>
    have within := Nat.mod_lt passes lawful.positive
    have asked := List.getElem?_eq_getElem within
    obtain ⟨drawn, drew⟩ := possible _ (List.getElem_mem within)
    obtain ⟨first, found, before, same⟩ := findIdx_getElem asked
    obtain rfl : first = passes % loop.listoperations.length :=
      (List.getElem?_inj (by omega) distinct).mp (same.trans asked.symm)
    obtain ⟨after, filed, _⟩ := lawful.filed _ drawn (passes % loop.listoperations.length) state drew
    have next := turn.file lawful asked drew filed
    have asked' : loop.listoperations[leastIndex (loop.tally state)]? =
        some loop.listoperations[passes % loop.listoperations.length] := by
      rw [(turn.asked lawful).1, asked]
    have returned := (pass_returns lawful asked').mpr (.inr ⟨drawn, drew, _, after, found, filed, rfl⟩)
    rw [leaveOrStay_turn next lawful num] at returned
    split at returned
    · exact .leave returned
    · next more => exact .again returned (ih (passes + 1) _ (by omega) next (by omega))

end Sampling

end CotCompression
