import CotCompression.Worker.Production

set_option autoImplicit false

namespace CotCompression

open Program (Prog)
open Program.Prog (Reaches CanLeave Steps)
open RoundRobin (leastIndex least)

namespace Sampling

variable {α : Type} {loop : Sampling α} {records : α → List Record}

theorem asked_some (lawful : loop.Lawful records) {state : LoopState}
    (length : (loop.tally state).length = loop.listoperations.length) :
    ∃ target, target ∈ loop.listoperations ∧
      loop.listoperations[leastIndex (loop.tally state)]? = some target := by
  have within : leastIndex (loop.tally state) < loop.listoperations.length := by
    rw [← length]
    exact RoundRobin.leastIndex_lt (by rw [length]; exact lawful.positive)
  exact ⟨_, List.getElem_mem within, List.getElem?_eq_getElem within⟩

theorem step_tally (lawful : loop.Lawful records) {before after : LoopState}
    (length : (loop.tally before).length = loop.listoperations.length)
    (step : Steps loop.pass before after) :
    after = before ∨ ∃ target drawn first, (loop.draw target).Returns drawn ∧
      (loop.listoperations.findIdx? fun askOp => target == askOp) = some first ∧
        loop.tally after = (loop.tally before).modify first (· + 1) ∧
        after.lines = max before.lines (least (loop.tally after)) := by
  obtain ⟨target, _, asked⟩ := asked_some lawful length
  rcases (pass_returns lawful asked).mp step with
    ⟨_, _, same⟩ | ⟨drawn, drew, first, filed, found, made, same⟩
  · exact .inl (Sum.inl.inj same)
  · right
    obtain ⟨filed', made', _, counted, lines⟩ := lawful.filed target drawn first before drew
    obtain rfl := Except.ok.inj (made'.symm.trans made)
    have settled : after = loop.settle filed' := by
      simp only [leaveOrStay] at same
      split at same
      · cases same
      · exact Sum.inl.inj same
    have tally : loop.tally after = loop.tally filed' := by rw [settled, settle_tally lawful]
    refine ⟨target, drawn, first, drew, found, by rw [tally, counted], ?_⟩
    rw [tally, settled, settle_lines, lines]

theorem reaches_length (lawful : loop.Lawful records) {state : LoopState}
    (reached : Reaches loop.pass loop.start state) :
    (loop.tally state).length = loop.listoperations.length := by
  refine Prog.reaches_invariant (fun state => (loop.tally state).length = loop.listoperations.length)
    (by rw [lawful.tally_start, List.length_replicate]) (fun before after length step => ?_) reached
  rcases step_tally lawful length step with rfl | ⟨_, _, _, _, _, counted, _⟩
  · exact length
  · rw [counted, List.length_modify, length]

theorem reaches_safe (lawful : loop.Lawful records) {state : LoopState}
    (reached : Reaches loop.pass loop.start state) : (loop.pass state).Safe := by
  obtain ⟨_, _, asked⟩ := asked_some lawful (reaches_length lawful reached)
  exact pass_safe lawful asked

-- An op whose counter nothing filed can raise keeps the loop going forever.
theorem not_canLeave_of_stuck (lawful : loop.Lawful records) (some : 1 ≤ loop.numPerWorker) {idx : Nat}
    (within : idx < loop.listoperations.length)
    (never : ∀ target drawn, (loop.draw target).Returns drawn →
      (loop.listoperations.findIdx? fun askOp => target == askOp) ≠ .some idx) :
    ¬ CanLeave loop.pass loop.start := by
  refine Prog.not_canLeave (fun state => Reaches loop.pass loop.start state ∧
    (loop.tally state)[idx]? = .some 0 ∧ state.lines = 0) ⟨.refl, ?_, rfl⟩
    (fun state inv => reaches_safe lawful inv.1) ?_ ?_
  · rw [lawful.tally_start, List.getElem?_replicate, if_pos within]
  · rintro state value ⟨reached, unfiled, lines⟩ left
    obtain ⟨target, _, asked⟩ := asked_some lawful (reaches_length lawful reached)
    rcases (pass_returns lawful asked).mp left with
      ⟨_, _, same⟩ | ⟨drawn, drew, first, filed, found, made, same⟩
    · cases same
    · obtain ⟨filed', made', _, counted, kept⟩ := lawful.filed target drawn first state drew
      obtain rfl := Except.ok.inj (made'.symm.trans made)
      have other : first ≠ idx := fun is => never target drawn drew (is ▸ found)
      have still : (loop.tally filed')[idx]? = .some 0 := by
        simp [counted, other, unfiled]
      have zero : (loop.settle filed').lines = 0 := by
        rw [settle_lines, RoundRobin.least_zero still, kept, lines]
        rfl
      rw [leaveOrStay, zero, if_neg (by push_cast; omega)] at same
      cases same
  · rintro before after ⟨reached, unfiled, lines⟩ step
    refine ⟨reached.tail step, ?_⟩
    rcases step_tally lawful (reaches_length lawful reached) step with
      rfl | ⟨target, drawn, first, drew, found, counted, settled⟩
    · exact ⟨unfiled, lines⟩
    · have other : first ≠ idx := fun is => never target drawn drew (is ▸ found)
      have still : (loop.tally after)[idx]? = .some 0 := by
        simp [counted, other, unfiled]
      exact ⟨still, by rw [settled, lines, RoundRobin.least_zero still]; rfl⟩

theorem canLeave_iff (lawful : loop.Lawful records) {total : Nat} (filled : 1 ≤ total)
    (num : loop.numPerWorker = total) :
    (∀ state, Reaches loop.pass loop.start state → CanLeave loop.pass state) ↔
      loop.listoperations.Nodup ∧ ∀ op ∈ loop.listoperations, ∃ drawn, (loop.draw op).Returns drawn := by
  constructor
  · intro leaves
    have start := leaves _ .refl
    have positive : 1 ≤ loop.numPerWorker := by omega
    refine ⟨?_, fun op member => ?_⟩
    · by_contra repeated
      rw [List.nodup_iff_getElem?_ne_getElem?] at repeated
      push Not at repeated
      obtain ⟨first, later, before, within, same⟩ := repeated
      refine not_canLeave_of_stuck lawful positive within (fun target drawn _ found => ?_) start
      -- the earlier of two equal ops takes every record
      obtain ⟨inside, holds, none⟩ := List.findIdx?_eq_some_iff_getElem.mp found
      have different := none first before
      rw [List.getElem?_eq_getElem within, List.getElem?_eq_getElem (by omega)] at same
      rw [Option.some.inj same] at different
      exact different holds
    · by_contra impossible
      obtain ⟨idx, within, is⟩ := List.mem_iff_getElem.mp member
      refine not_canLeave_of_stuck lawful positive within (fun target drawn drew found => ?_) start
      obtain ⟨_, holds, _⟩ := List.findIdx?_eq_some_iff_getElem.mp found
      exact impossible ⟨drawn, ((by simpa using holds : target = _).trans is) ▸ drew⟩
  · rintro ⟨distinct, possible⟩ state reached
    obtain ⟨passes, below, turn⟩ := reaches_turn lawful distinct num filled reached
    exact turn_canLeave lawful distinct possible num passes state below turn

end Sampling

section Possible

variable {pyHash : Text → Int} {op numberRange mod : Int}

theorem generateChain_possible_iff : (∃ data, (generateChain op numberRange mod).Returns data) ↔
    0 ≤ op ∧ op ≤ 199 ∧ 2 ≤ numberRange ∧ (mod = 0 → op = 0) := by
  constructor
  · rintro ⟨data, returned⟩
    have generated := generateChain_returns returned
    refine ⟨generated.op_nonneg, generated.op_le, generateChain_range returned, fun zero => ?_⟩
    rw [← generated.length, generated.divides zero]
    rfl
  · rintro ⟨nonneg, small, range, divides⟩
    exact generateChain_possible nonneg small range divides

theorem Mode.accepts_iff (mode : Mode) (op : Nat) : mode.renderer.Accepts op ↔ mode.Takes op := by
  refine ⟨fun accepts is => ?_, Mode.Takes.accepts⟩
  subst is
  have accepts : ¬(op < 2 ∨ op &&& (op - 1) ≠ 0) := accepts
  rw [not_or, not_not, Nat.and_sub_one_eq_zero_iff_isPowerOfTwo (by omega)] at accepts
  obtain ⟨many, k, rfl⟩ := accepts
  cases k with
  | zero => exact absurd many (by decide)
  | succ k => exact ⟨k + 1, by omega, by push_cast; rfl⟩

theorem generateSample_possible {mode : Mode} :
    (∃ drawn, (generateSample pyHash op numberRange mod mode).Returns drawn) ↔
      (∃ data, (generateChain op numberRange mod).Returns data) ∧ mode.Takes op := by
  constructor
  · rintro ⟨drawn, drew⟩
    obtain ⟨data, solution, chained, rendered, _⟩ := generateSample_returns.mp drew
    have takes := (mode.accepts_iff _).mp (Renderer.accepts_of_returns rendered)
    exact ⟨⟨data, chained⟩, (generateChain_returns chained).length ▸ takes⟩
  · rintro ⟨⟨data, chained⟩, takes⟩
    have generated := generateChain_returns chained
    rw [← generated.length] at takes
    obtain ⟨solution, rendered⟩ := exists_returns (generated.render _ takes.accepts).1
    exact ⟨_, generateSample_returns.mpr ⟨data, solution, chained, rendered, rfl⟩⟩

theorem generateAllVariants_possible_iff {maxNests : List Int} {variantTypes : List VariantType}
    {includeRightforward : Bool} :
    (∃ drawn, (generateAllVariants pyHash op numberRange mod maxNests variantTypes
      includeRightforward).Returns drawn) ↔
      (∃ data, (generateChain op numberRange mod).Returns data) ∧
        ∀ pair ∈ variantPairs maxNests variantTypes, (pair.1.renderer pair.2).Accepts op.toNat := by
  constructor
  · rintro ⟨drawn, drew⟩
    obtain ⟨data, chained, _, _, _, _, _, accepts⟩ := generateAllVariants_returns drew
    have length := (generateChain_returns chained).length
    rw [← length, Int.toNat_natCast]
    exact ⟨⟨data, by rwa [length]⟩, accepts⟩
  · rintro ⟨⟨data, chained⟩, accepts⟩
    exact generateAllVariants_possible chained accepts

theorem variants_accept_iff {maxNests : List Int} {variantTypes : List VariantType} (op : Nat) :
    (∀ pair ∈ variantPairs maxNests variantTypes, (pair.1.renderer pair.2).Accepts op) ↔
      (0 ∈ maxNests → (.composed ∈ variantTypes → op ≤ 1) ∧ (.implicit ∈ variantTypes → op = 0)) := by
  have pair_mem (vt : VariantType) (nest : Int) :
      (vt, nest) ∈ variantPairs maxNests variantTypes ↔ nest ∈ maxNests ∧ vt ∈ variantTypes := by
    simp [variantPairs]
  constructor
  · intro accepts zero
    refine ⟨fun composed => ?_, fun implicit => accepts _ ((pair_mem _ _).mpr ⟨zero, implicit⟩) rfl⟩
    exact (accepts _ ((pair_mem _ _).mpr ⟨zero, composed⟩)).resolve_right fun nonzero => nonzero rfl
  · rintro small ⟨vt, nest⟩ member
    obtain ⟨known, type⟩ := (pair_mem vt nest).mp member
    cases vt with
    | composed =>
      by_cases zero : nest = 0
      · exact .inl ((small (zero ▸ known)).1 type)
      · exact .inr zero
    | implicit => exact fun zero => (small (zero ▸ known)).2 type

end Possible

def loopBodies (pyHash : Text → Int) (args : Args) (numPerWorker : Int) :
    List (LoopState → Py (LoopState ⊕ LoopState)) :=
  match args.allNests with
  | some allNests => [(variantSampling pyHash args numPerWorker allNests).pass]
  | none => args.modes.map fun mode => (workSampling pyHash args numPerWorker mode).pass

def Args.start (args : Args) : LoopState :=
  ⟨List.replicate args.listoperations.length [], List.replicate args.listoperations.length 0, 0⟩

-- A loop is entered once every loop before it has been left by its break.
def Entered (start : LoopState) : List (LoopState → Py (LoopState ⊕ LoopState)) →
    (LoopState → Py (LoopState ⊕ LoopState)) → Prop
  | [], _ => False
  | first :: rest, body => body = first ∨
      (∃ last final, Reaches first start last ∧ (first last).Returns (.inr final)) ∧ Entered start rest body

-- From every state of every loop a worker enters, some draws lead out of the loop.
def NeverSpins (args : Args) : Prop :=
  ∀ pyHash num, args.numPerWorker = .ok num → ∀ body, Entered args.start (loopBodies pyHash args num) body →
    ∀ state, Reaches body args.start state → CanLeave body state

structure Args.Productive (args : Args) : Prop where
  distinct : args.listoperations.Nodup
  range : 2 ≤ args.numberRange
  ops : ∀ op ∈ args.listoperations, 0 ≤ op ∧ op ≤ 199 ∧ (args.mod = 0 → op = 0)
  modes : args.allNests = none → .hierarchical ∈ args.modes →
    ∀ op ∈ args.listoperations, ∃ k, 1 ≤ k ∧ op = 2 ^ k
  nests : ∀ allNests, args.allNests = some allNests → 0 ∈ allNests → ∀ op ∈ args.listoperations,
    (.composed ∈ args.variantTypes → op ≤ 1) ∧ (.implicit ∈ args.variantTypes → op = 0)

theorem entered_mem {start : LoopState} {bodies : List (LoopState → Py (LoopState ⊕ LoopState))}
    {body : LoopState → Py (LoopState ⊕ LoopState)} (entered : Entered start bodies body) :
    body ∈ bodies := by
  induction bodies with
  | nil => exact entered.elim
  | cons first rest ih =>
    rcases entered with rfl | ⟨_, entered⟩
    · exact List.mem_cons_self
    · exact List.mem_cons_of_mem _ (ih entered)

theorem all_entered {start : LoopState} {bodies : List (LoopState → Py (LoopState ⊕ LoopState))}
    (safe : ∀ body ∈ bodies, ∀ state, Reaches body start state → (body state).Safe)
    (leaves : ∀ body, Entered start bodies body → CanLeave body start) :
    ∀ body ∈ bodies, Entered start bodies body := by
  induction bodies with
  | nil => simp
  | cons first rest ih =>
    have out := (leaves first (.inl rfl)).exits (safe first (by simp)) .refl
    have later := ih (fun body member => safe body (List.mem_cons_of_mem _ member))
      fun body entered => leaves body (.inr ⟨out, entered⟩)
    intro body member
    rcases List.mem_cons.mp member with rfl | member
    · exact .inl rfl
    · exact .inr ⟨out, later body member⟩

section Args

variable {pyHash : Text → Int} {args : Args} {num : Nat}

theorem loopBodies_safe : ∀ body ∈ loopBodies pyHash args num, ∀ state, Reaches body args.start state →
    (body state).Safe := by
  unfold loopBodies
  cases args.allNests with
  | some allNests =>
    intro body member state reached
    obtain rfl := List.mem_singleton.mp member
    exact Sampling.reaches_safe (variantSampling_lawful allNests) reached
  | none =>
    intro body member state reached
    obtain ⟨mode, _, rfl⟩ := List.mem_map.mp member
    exact Sampling.reaches_safe (workSampling_lawful mode) reached

theorem variants_drawn {allNests : List Int} {op : Int} :
    (∃ drawn, ((variantSampling pyHash args num allNests).draw op).Returns drawn) ↔
      (0 ≤ op ∧ op ≤ 199 ∧ 2 ≤ args.numberRange ∧ (args.mod = 0 → op = 0)) ∧
        (0 ∈ allNests → (.composed ∈ args.variantTypes → op ≤ 1) ∧
          (.implicit ∈ args.variantTypes → op = 0)) := by
  simp only [variantSampling, generateAllVariants_possible_iff, generateChain_possible_iff,
    variants_accept_iff]
  refine and_congr_right fun chain => ?_
  have small : op.toNat ≤ 1 ↔ op ≤ 1 := by omega
  have none : op.toNat = 0 ↔ op = 0 := by omega
  rw [small, none]

theorem sample_drawn {mode : Mode} {op : Int} :
    (∃ drawn, ((workSampling pyHash args num mode).draw op).Returns drawn) ↔
      (0 ≤ op ∧ op ≤ 199 ∧ 2 ≤ args.numberRange ∧ (args.mod = 0 → op = 0)) ∧ mode.Takes op := by
  simp only [workSampling, generateSample_possible, generateChain_possible_iff]

theorem loopBodies_leave (filled : 1 ≤ num) :
    (∀ body ∈ loopBodies pyHash args num, ∀ state, Reaches body args.start state → CanLeave body state) ↔
      args.Productive := by
  obtain ⟨first, ops, shape⟩ := List.exists_cons_of_ne_nil args.listoperations_filled
  have firstMem : first ∈ args.listoperations := by simp [shape]
  cases nests : args.allNests with
  | some allNests =>
    have leaves := Sampling.canLeave_iff (@variantSampling_lawful pyHash args num allNests) filled rfl
    simp only [variants_drawn] at leaves
    simp only [loopBodies, nests, List.forall_mem_singleton]
    refine leaves.trans ⟨?_, ?_⟩
    · rintro ⟨distinct, each⟩
      refine ⟨distinct, (each first firstMem).1.2.2.1, fun op member => ?_, fun none => ?_, ?_⟩
      · obtain ⟨⟨nonneg, small, _, divides⟩, _⟩ := each op member
        exact ⟨nonneg, small, divides⟩
      · rw [nests] at none
        cases none
      · intro other same zero op member
        obtain rfl := Option.some.inj (nests.symm.trans same)
        exact (each op member).2 zero
    · rintro productive
      refine ⟨productive.distinct, fun op member => ?_⟩
      obtain ⟨nonneg, small, divides⟩ := productive.ops op member
      exact ⟨⟨nonneg, small, productive.range, divides⟩, fun zero => productive.nests _ nests zero op member⟩
  | none =>
    have leaves (mode : Mode) := Sampling.canLeave_iff (@workSampling_lawful pyHash args num mode) filled rfl
    simp only [sample_drawn] at leaves
    simp only [loopBodies, nests, List.forall_mem_map]
    constructor
    · intro each
      obtain ⟨mode, modes, some⟩ := List.exists_cons_of_ne_nil args.modes_filled
      obtain ⟨distinct, drawn⟩ := (leaves mode).mp (each mode (by simp [some]))
      refine ⟨distinct, (drawn first firstMem).1.2.2.1, fun op member => ?_, fun _ tree op member => ?_, ?_⟩
      · obtain ⟨⟨nonneg, small, _, divides⟩, _⟩ := drawn op member
        exact ⟨nonneg, small, divides⟩
      · exact (((leaves .hierarchical).mp (each _ tree)).2 op member).2 rfl
      · intro other same
        rw [nests] at same
        cases same
    · intro productive mode member
      refine (leaves mode).mpr ⟨productive.distinct, fun op inside => ?_⟩
      obtain ⟨nonneg, small, divides⟩ := productive.ops op inside
      refine ⟨⟨nonneg, small, productive.range, divides⟩, ?_⟩
      rintro rfl
      exact productive.modes nests member op inside

end Args

-- A worker is always able to finish exactly when its settings are productive.
theorem neverSpins_iff {args : Args} (total : 1 ≤ args.total) (numprocs : 1 ≤ args.numprocs) :
    NeverSpins args ↔ args.Productive := by
  obtain ⟨num, is, filled, _, _⟩ := numPerWorker_bounds total numprocs
  constructor
  · intro never
    have entered := all_entered (@loopBodies_safe (fun _ => 0) args num)
      fun body entered => never _ num is body entered _ .refl
    exact (loopBodies_leave filled).mp fun body member => never _ num is body (entered body member)
  · intro productive pyHash other same body entered
    obtain rfl := Except.ok.inj (is.symm.trans same)
    exact (loopBodies_leave filled).mpr productive body (entered_mem entered)

theorem neverSpins_iff_pair : NeverSpins pairArgs := by
  refine (neverSpins_iff (by decide) (by decide)).mpr
    ⟨by decide, by decide, by decide, fun _ _ => ?_, fun allNests none => by cases none⟩
  exact fun op member => pairArgs_takes .hierarchical op member rfl

def oddArgs : Args :=
  { pairArgs with listoperations := [3], modes := [.hierarchical]
                  listoperations_filled := by decide, modes_filled := by decide }

theorem oddArgs_spins : 1 ≤ oddArgs.total ∧ 1 ≤ oddArgs.numprocs ∧ ¬ NeverSpins oddArgs := by
  refine ⟨by decide, by decide, fun never => ?_⟩
  have leaves := never (fun _ => 0) 2 (by decide) _ (.inl rfl) _ .refl
  refine Sampling.not_canLeave_of_stuck (workSampling_lawful .hierarchical) (by decide : (1 : Int) ≤ 2)
    (by decide : 0 < oddArgs.listoperations.length) (fun target drawn drew found => ?_) leaves
  obtain ⟨_, holds, _⟩ := List.findIdx?_eq_some_iff_getElem.mp found
  obtain rfl : target = 3 := eq_of_beq holds
  obtain ⟨_, takes⟩ := generateSample_possible.mp ⟨drawn, drew⟩
  obtain ⟨k, exponent, power⟩ := takes rfl
  obtain ⟨k, rfl⟩ := Nat.exists_eq_add_of_le exponent
  rw [pow_add] at power
  omega

end CotCompression
