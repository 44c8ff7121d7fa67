import CotCompression.Generator.Definitions
import CotCompression.Worker.Production

set_option autoImplicit false

namespace CotCompression

open Program (Prog)
open Program.Prog (Machine iterate run_bind run_attempt run_outcome returns_of_run)
open RoundRobin (leastIndex least)
open Text (lit decimal)

variable {σ : Type}

section Run

variable {α : Type}

theorem run_safe (machine : Machine random σ) {prog : Py α} (safe : prog.Safe) (state : σ) :
    ∃ value later, prog.run machine state = (.ok value, later) ∧ prog.Returns value := by
  have outcome := run_outcome machine prog state
  rcases ran : prog.run machine state with ⟨result, later⟩
  rw [ran] at outcome
  cases result with
  | ok value => exact ⟨value, later, rfl, outcome⟩
  | error error => exact absurd outcome (safe error)

end Run

section Sample

variable {data : ChainData} {ch : List Text} {op numberRange mod : Int}

def Mode.write (mode : Mode) (ch : List Text) (data : ChainData) (mod : Int) : Except PyError Text :=
  match mode with
  | .forward => normalforwardText ch data
  | .backward => rightforwardText ch data mod
  | .hierarchical => balanceforwardText ch data mod

theorem Mode.run_eq (mode : Mode) (some : data.ops.length ≠ 0)
    (accepts : mode.renderer.Accepts data.ops.length)
    (vars : List Text) : mode.renderer.run vars data mod = (do
      let ch ← shuffle vars
      .ofExcept (mode.write ch data mod)) := by
  cases mode with
  | forward => rfl
  | backward => exact if_neg some
  | hierarchical => exact if_neg accepts

theorem varOf_variable (pool : ch.Perm variableNames) {i : Nat} (within : i < 676) :
    IsVariable (varOf ch i) := by
  have length : ch.length = 676 := pool.length_eq.trans variableNames_length
  exact variableNames_upper _ (pool.mem_iff.mp (varOf_mem (by omega)))

theorem Mode.write_tells (mode : Mode) (generated : Generated op mod data) (positive : 1 ≤ mod)
    (pool : ch.Perm variableNames) (takes : mode.Takes op) (some : 1 ≤ op) :
    ∃ lines, mode.write ch data mod = .ok (solutionText lines (data.value data.ops.length)) ∧
      Tells lines (data.nodes ch) := by
  have ready := generated.renderable pool
  have follows := generated.follows positive
  have length := generated.length
  have small := generated.op_le
  cases mode with
  | forward => exact normalforward_tells ready
  | backward => exact rightforward_tells ready positive follows (by omega)
  | hierarchical =>
    obtain ⟨k, exponent, power⟩ := takes rfl
    obtain ⟨two, half, even⟩ := @power_even data.ops.length k exponent (by exact_mod_cast length.trans power)
    obtain ⟨half, rfl⟩ := Nat.exists_eq_add_of_le' (by omega : 1 ≤ half)
    exact balanceforward_tells ready positive follows (fun i within => varOf_variable pool (by omega)) even

theorem nodes_facts (generated : Generated op mod data) (pool : ch.Perm variableNames) :
    (∀ node ∈ data.nodes ch, ' ' ∉ node.1 ∧ IsVariable node.2) ∧ ((data.nodes ch).map Prod.fst).Nodup ∧
      ((data.nodes ch).length : Int) = op + 1 := by
  have length := generated.length
  have small := generated.op_le
  have named := generated.sized.names
  have names : (data.nodes ch).map Prod.fst = data.chainNames := by
    rw [ChainData.nodes, List.map_map]
    refine List.ext_getElem (by simp [named]) fun i left right => ?_
    simp [ChainData.name, right]
  refine ⟨?_, by rw [names]; exact generated.names_nodup, by simp [ChainData.nodes, length]⟩
  intro node member
  have known : node.1 ∈ data.chainNames := names ▸ List.mem_map_of_mem member
  obtain ⟨i, inside, rfl⟩ := List.mem_map.mp member
  have within := List.mem_range.mp inside
  refine ⟨fun blank => ?_, varOf_variable pool (by omega)⟩
  have lower := (nodeNames_lower _ (generated.names_mem _ known)).2 ' ' blank
  exact absurd lower (by decide)

theorem not_blank_of_variable {x : Text} (named : IsVariable x) : ' ' ∉ x := fun member => by
  have upper := named.2 ' ' member
  exact absurd upper (by decide)

end Sample

structure Paired (mode other : Mode) (first second : Record) : Prop where
  modes : first.mode = mode.text ∧ second.mode = other.text
  problem : first.problem = second.problem
  question : first.question = second.question
  op : first.op = second.op
  answer : ∃ answer, extractGroundTruth first.solution = some answer ∧
    extractGroundTruth second.solution = some answer
  definitions : (definitions first.solution).Perm (definitions second.solution)
  names : ((CotCompression.definitions first.solution).map Prod.fst).Nodup
  nodes : ((CotCompression.definitions first.solution).length : Int) = first.op + 1
  letters : ∀ node ∈ CotCompression.definitions first.solution, IsVariable node.2

theorem sample_lockstep {machine : Machine random σ} {pyHash : Text → Int} {op numberRange mod : Int}
    {mode other : Mode}
    (chain : (generateChain op numberRange mod).Safe) (positive : 1 ≤ mod) (some : 1 ≤ op)
    (takes : mode.Takes op) (otherTakes : other.Takes op) (state : σ) :
    ∃ first second later,
      (generateSample pyHash op numberRange mod mode).run machine state = (.ok first, later) ∧
      (generateSample pyHash op numberRange mod other).run machine state = (.ok second, later) ∧
      first.op = op ∧ Paired mode other (sampleRecord mode.text first) (sampleRecord other.text second) := by
  obtain ⟨data, middle, chained, returned⟩ := run_safe machine chain state
  obtain ⟨ch, later, pool, shuffled⟩ := run_shuffle machine variableNames middle
  have generated := generateChain_returns returned
  have length := generated.length
  -- both modes see one chain and one order of the pool
  have run {m : Mode} (takes : m.Takes op) : ∃ s, (m.write ch data mod) = .ok s ∧
      (generateSample pyHash op numberRange mod m).run machine state =
        (.ok ⟨data.problemText, data.questionText, s, op, stringToNumber pyHash s⟩, later) ∧
      Solution s (data.value data.ops.length) ∧ (definitions s).Perm (data.nodes ch) := by
    obtain ⟨lines, written, tells⟩ := m.write_tells generated positive pool takes some
    refine ⟨_, written, ?_, ⟨lines, rfl, tells.clear⟩, tells.definitions_perm (fun node member => ?_) _⟩
    · have accepts : m.renderer.Accepts data.ops.length :=
        Mode.Takes.accepts (by rwa [length])
      simp only [generateSample, m.run_eq (by omega) accepts, run_bind, chained, shuffled, written,
        run_ofExcept]
      rfl
    · have facts := (nodes_facts generated pool).1 node member
      exact ⟨facts.1, not_blank_of_variable facts.2⟩
  obtain ⟨s, _, ran, solution, defined⟩ := run takes
  obtain ⟨t, _, ran', solution', defined'⟩ := run otherTakes
  obtain ⟨letters, names, count⟩ := nodes_facts generated pool
  refine ⟨_, _, later, ran, ran', rfl, ⟨rfl, rfl⟩, rfl, rfl, rfl,
    ⟨_, extractGroundTruth_solution solution, extractGroundTruth_solution solution'⟩,
    defined.trans defined'.symm, (defined.map _).nodup_iff.mpr names, ?_,
    fun node member => (letters node (defined.mem_iff.mp member)).2⟩
  exact (congrArg (Nat.cast : Nat → Int) defined.length_eq).trans count

section Loops

variable {machine : Machine random σ} {pyHash : Text → Int} {args : Args} {num : Nat} {mode other : Mode}

theorem Sampling.pass_run {α : Type} {loop : Sampling α} {records : α → List Record}
    (lawful : loop.Lawful records) {state after : LoopState} {target : Int} {drawn : α} {first : Nat}
    {before later : σ} (asked : loop.listoperations[leastIndex (loop.tally state)]? = some target)
    (drew : (loop.draw target).run machine before = (.ok drawn, later))
    (found : (loop.listoperations.findIdx? fun askOp => target == askOp) = some first)
    (filed : loop.file first drawn state = .ok after) :
    (loop.pass state).run machine before = (.ok (loop.leaveOrStay (loop.settle after)), later) := by
  have get : item loop.listoperations (leastIndex (loop.tally state)) = .ok target := by
    simp [item, asked]
  have op := lawful.op_eq target drawn (returns_of_run (congrArg Prod.fst drew))
  simp only [pass, get, run_bind, run_ofExcept, run_attempt, drew, op, found, filed]
  rfl

structure Alike (args : Args) (mode other : Mode) (left right : LoopState) : Prop where
  length : left.items.length = args.listoperations.length
  items : List.Forall₂ (List.Forall₂ (Paired mode other)) left.items right.items
  lines : left.lines = right.lines

theorem forall₂_lengths {α β : Type} {r : α → β → Prop} {xs : List (List α)} {ys : List (List β)}
    (same : List.Forall₂ (List.Forall₂ r) xs ys) : xs.map List.length = ys.map List.length := by
  induction same with
  | nil => rfl
  | cons head _ ih => rw [List.map_cons, List.map_cons, head.length_eq, ih]

theorem forall₂_modify {α β : Type} {r : α → β → Prop} {f : α → α} {g : β → β} {xs : List α} {ys : List β}
    (each : ∀ x y, r x y → r (f x) (g y)) (same : List.Forall₂ r xs ys) (idx : Nat) :
    List.Forall₂ r (xs.modify idx f) (ys.modify idx g) := by
  induction same generalizing idx with
  | nil => simp
  | cons head tail ih =>
    cases idx with
    | zero => exact .cons (each _ _ head) tail
    | succ idx => exact .cons head (ih idx)

theorem pass_lockstep (chain : ∀ op ∈ args.listoperations, (generateChain op args.numberRange args.mod).Safe)
    (positive : 1 ≤ args.mod) (ops : ∀ op ∈ args.listoperations, 1 ≤ op ∧ mode.Takes op ∧ other.Takes op)
    {left right : LoopState} (alike : Alike args mode other left right) (state : σ) :
    ∃ after after' later,
      ((workSampling pyHash args num mode).pass left).run machine state =
        (.ok ((workSampling pyHash args num mode).leaveOrStay after), later) ∧
      ((workSampling pyHash args num other).pass right).run machine state =
        (.ok ((workSampling pyHash args num other).leaveOrStay after'), later) ∧
      Alike args mode other after after' := by
  have tallies := forall₂_lengths alike.items
  have inside : leastIndex (left.items.map List.length) < args.listoperations.length := by
    have positive := List.length_pos_iff.mpr args.listoperations_filled
    have below := @RoundRobin.leastIndex_lt (left.items.map List.length)
      (by rw [List.length_map, alike.length]; exact positive)
    rwa [List.length_map, alike.length] at below
  have member := List.getElem_mem inside
  have asked := List.getElem?_eq_getElem inside
  set target := args.listoperations[leastIndex (left.items.map List.length)]
  obtain ⟨some, takes, otherTakes⟩ := ops target member
  obtain ⟨drawn, drawn', later, ran, ran', _, paired⟩ :=
    @sample_lockstep σ machine pyHash target args.numberRange args.mod mode other (chain target member)
      positive some takes otherTakes state
  obtain ⟨first, found, _, _⟩ := Sampling.findIdx_getElem asked
  refine ⟨_, _, later, Sampling.pass_run (workSampling_lawful mode) asked ran found rfl,
    Sampling.pass_run (workSampling_lawful other) (by rw [tallies] at asked; exact asked) ran' found rfl, ?_⟩
  have items := forall₂_modify (r := List.Forall₂ (Paired mode other))
    (fun xs ys same => List.rel_append same (.cons paired .nil)) alike.items first
  refine ⟨by rw [Sampling.settle_items, List.length_modify, alike.length], ?_, ?_⟩
  · rw [Sampling.settle_items, Sampling.settle_items]
    exact items
  · rw [Sampling.settle_lines, Sampling.settle_lines]
    exact congrArg₂ max alike.lines (congrArg least (forall₂_lengths items))

theorem leaveOrStay_cases {α : Type} (loop : Sampling α) (state : LoopState) :
    loop.leaveOrStay state = .inl state ∨ loop.leaveOrStay state = .inr state := by
  unfold Sampling.leaveOrStay
  split
  · exact .inr rfl
  · exact .inl rfl

theorem iterate_lockstep
    (chain : ∀ op ∈ args.listoperations, (generateChain op args.numberRange args.mod).Safe)
    (positive : 1 ≤ args.mod) (ops : ∀ op ∈ args.listoperations, 1 ≤ op ∧ mode.Takes op ∧ other.Takes op)
    (rounds : Nat) (state : σ) {left right : LoopState}
    (ran : ((iterate (workSampling pyHash args num mode).pass rounds
      (workSampling pyHash args num mode).start).run machine state).1 = .ok (.inr left))
    (ran' : ((iterate (workSampling pyHash args num other).pass rounds
      (workSampling pyHash args num other).start).run machine state).1 = .ok (.inr right)) :
    Alike args mode other left right := by
  have start : Alike args mode other (workSampling pyHash args num mode).start
      (workSampling pyHash args num other).start :=
    ⟨by simp [Sampling.start, workSampling],
      List.forall₂_same.mpr fun _ member => List.eq_of_mem_replicate member ▸ .nil, rfl⟩
  have related := Prog.run_iterate_related machine (workSampling pyHash args num mode).pass
    (workSampling pyHash args num other).pass (Alike args mode other) (Alike args mode other)
    (fun left right state alike => ?_) rounds _ _ state start
  · rcases related.2 with ⟨_, _, stays, _⟩ | ⟨value, value', left', right', alike⟩
    · rw [ran] at stays
      cases stays
    · rw [ran] at left'
      rw [ran'] at right'
      obtain rfl := Sum.inr.inj (Except.ok.inj left')
      obtain rfl := Sum.inr.inj (Except.ok.inj right')
      exact alike
  · obtain ⟨after, after', later, pass, pass', next⟩ :=
      @pass_lockstep σ machine pyHash args num mode other chain positive ops left right alike state
    rw [pass, pass']
    refine ⟨rfl, ?_⟩
    have same : (workSampling pyHash args num other).leaveOrStay after' = .inl after' ↔
        (workSampling pyHash args num mode).leaveOrStay after = .inl after := by
      simp [Sampling.leaveOrStay, workSampling, next.lines]
    rcases leaveOrStay_cases (workSampling pyHash args num mode) after with stay | leave
    · exact .inl ⟨after, after', by rw [stay], by rw [same.mpr stay], next⟩
    · right
      have leave' := (leaveOrStay_cases (workSampling pyHash args num other) after').resolve_left
        fun stay => by rw [same.mp stay] at leave; cases leave
      exact ⟨after, after', by rw [leave], by rw [leave'], next⟩

theorem runSampling_run {α : Type} (loop : Sampling α)
    (reseeded : ∀ value before before', machine.next before (.seed value) = machine.next before' (.seed value))
    (identifier : Int) (rounds : Nat) (state other : σ) :
    (runSampling loop identifier rounds).run machine state =
      (runSampling loop identifier rounds).run machine other := by
  have first (state : σ) :
      (seed identifier).run machine state = (.ok (), machine.next state (.seed identifier)) := rfl
  rw [runSampling, run_bind, run_bind, first, first, reseeded identifier state other]

theorem runSampling_items {α : Type} {loop : Sampling α} {identifier : Int} {rounds : Nat} {state : σ}
    {items : List (List Record)}
    (ran : ((runSampling loop identifier rounds).run machine state).1 = .ok (some items)) :
    ∃ final, final.items = items ∧ ((iterate loop.pass rounds loop.start).run machine
      (machine.next state (.seed identifier))).1 = .ok (.inr final) := by
  have first : (seed identifier).run machine state = (.ok (), machine.next state (.seed identifier)) := rfl
  rw [runSampling, run_bind, first] at ran
  simp only [run_bind] at ran
  rcases ended : (iterate loop.pass rounds loop.start).run machine (machine.next state (.seed identifier))
    with ⟨result, later⟩
  rw [ended] at ran
  rcases result with error | (stays | final)
  · cases ran
  · cases ran
  · exact ⟨final, Option.some.inj (Except.ok.inj ran), rfl⟩

theorem workModes_run {identifier : Int} {rounds : Nat}
    (reseeded : ∀ value before before', machine.next before (.seed value) = machine.next before' (.seed value))
    (modes : List Mode)
    (each : ∀ mode ∈ modes, ∀ state, ∃ items,
      ((runSampling (workSampling pyHash args num mode) identifier rounds).run machine state).1 =
        .ok (some items))
    (state : σ) :
    ∃ output, ((workModes pyHash args num identifier rounds modes).run machine state).1 = .ok (some output) ∧
      List.Forall₂ (fun mode items => ((runSampling (workSampling pyHash args num mode) identifier rounds).run
        machine state).1 = .ok (some items)) modes output := by
  induction modes generalizing state with
  | nil => exact ⟨[], rfl, .nil⟩
  | cons mode modes ih =>
    obtain ⟨items, ran⟩ := each mode (by simp) state
    rcases ended : (runSampling (workSampling pyHash args num mode) identifier rounds).run machine state
      with ⟨result, later⟩
    rw [ended] at ran
    obtain rfl : result = .ok (some items) := ran
    obtain ⟨output, rest, related⟩ := ih (fun mode member => each mode (List.mem_cons_of_mem _ member)) later
    refine ⟨items :: output, ?_, .cons (congrArg Prod.fst ended) (related.imp fun mode items same => ?_)⟩
    · rw [workModes, run_bind, ended]
      simp only [run_bind]
      rcases others : (workModes pyHash args num identifier rounds modes).run machine later with
        ⟨result', final⟩
      rw [others] at rest
      obtain rfl : result' = .ok (some output) := rest
      rfl
    · rw [runSampling_run _ reseeded identifier rounds state later]
      exact same

end Loops

-- The i-th record of an op tells the same chain under every mode, with the same names for it.
theorem orders_paired {machine : Machine random σ} {pyHash : Text → Int} {args : Args} {num rounds : Nat}
    (reseeded : ∀ value before before', machine.next before (.seed value) = machine.next before' (.seed value))
    (plain : args.allNests = none) (distinct : args.listoperations.Nodup)
    (powers : ∀ op ∈ args.listoperations, ∃ k, 1 ≤ k ∧ k ≤ 7 ∧ op = 2 ^ k) (range : 3 ≤ args.numberRange)
    (positive : 1 ≤ args.mod) (filled : 1 ≤ num) (enough : num * args.listoperations.length ≤ rounds)
    (identifier : Int) (state : σ) :
    ∃ output, ((workFunction pyHash args num identifier rounds).run machine state).1 = .ok (some output) ∧
      output.length = args.modes.length ∧
      (∀ items ∈ output, items.map List.length = List.replicate args.listoperations.length num) ∧
      ∀ (i j : Nat) (mode other : Mode) (first second : List (List Record)),
        args.modes[i]? = some mode → output[i]? = some first →
        args.modes[j]? = some other → output[j]? = some second →
        List.Forall₂ (List.Forall₂ (Paired mode other)) first second := by
  have ops (mode other : Mode) : ∀ op ∈ args.listoperations, 1 ≤ op ∧ mode.Takes op ∧ other.Takes op := by
    intro op member
    obtain ⟨k, exponent, _, rfl⟩ := powers op member
    have low : (1 : Int) ≤ 2 ^ k := one_le_pow₀ (by decide)
    exact ⟨low, fun _ => ⟨k, exponent, rfl⟩, fun _ => ⟨k, exponent, rfl⟩⟩
  have chain : ∀ op ∈ args.listoperations, (generateChain op args.numberRange args.mod).Safe := by
    intro op member
    obtain ⟨k, _, small, rfl⟩ := powers op member
    have high : (2 : Int) ^ k ≤ 2 ^ 7 := pow_le_pow_right₀ (by decide) small
    exact generateChain_safe (by positivity) (by omega) range positive
  have meets (mode : Mode) : MeetsQuota (workSampling pyHash args num mode) num [mode.text] :=
    workSampling_meetsQuota chain distinct (fun op member => (ops mode mode op member).2.1) filled
  have each (mode : Mode) (state : σ) : ∃ items,
      ((runSampling (workSampling pyHash args num mode) identifier rounds).run machine state).1 =
        .ok (some items) := by
    obtain ⟨safe, returns⟩ := runSampling_meets identifier (meets mode) enough
    obtain ⟨result, later, ran, returned⟩ := run_safe machine safe state
    obtain ⟨items, rfl, _⟩ := returns result returned
    exact ⟨items, congrArg Prod.fst ran⟩
  obtain ⟨output, ran, runs⟩ := workModes_run reseeded args.modes (fun mode _ => each mode) state
  have collected {i : Nat} {mode : Mode} {items : List (List Record)} (modeAt : args.modes[i]? = some mode)
      (itemsAt : output[i]? = some items) : ∃ final : LoopState, final.items = items ∧
        ((iterate (workSampling pyHash args num mode).pass rounds
          (workSampling pyHash args num mode).start).run
          machine (machine.next state (.seed identifier))).1 = .ok (.inr final) := by
    obtain ⟨inside, rfl⟩ := List.getElem?_eq_some_iff.mp modeAt
    obtain ⟨within, rfl⟩ := List.getElem?_eq_some_iff.mp itemsAt
    exact runSampling_items ((List.forall₂_iff_get.mp runs).2 i inside within)
  refine ⟨output, by rw [workFunction, plain]; exact ran, runs.length_eq.symm, ?_, ?_⟩
  · intro items member
    obtain ⟨i, inside, is⟩ := List.mem_iff_getElem.mp member
    have modeAt := List.getElem?_eq_getElem (by rw [runs.length_eq]; exact inside : i < args.modes.length)
    obtain ⟨final, rfl, ended⟩ := collected modeAt (is ▸ List.getElem?_eq_getElem inside)
    obtain ⟨final', same, tally, _⟩ := (meets _).leaves rounds _ enough (returns_of_run ended)
    obtain rfl := Sum.inr.inj same
    exact tally
  · intro i j mode other first second modeAt firstAt otherAt secondAt
    obtain ⟨left, rfl, ended⟩ := collected modeAt firstAt
    obtain ⟨right, rfl, ended'⟩ := collected otherAt secondAt
    exact (iterate_lockstep chain positive (ops mode other) rounds _ ended ended').items

theorem orders_paired_pair : ∃ output,
    ((workFunction (fun _ => 0) pairArgs (2 : Nat) 7 4).run leastAnswers ()).1 = .ok (some output) ∧
      ∀ first second, output[0]? = some first → output[1]? = some second →
        List.Forall₂ (List.Forall₂ (Paired .forward .hierarchical)) first second := by
  have powers : ∀ op ∈ pairArgs.listoperations, ∃ k, 1 ≤ k ∧ k ≤ 7 ∧ op = 2 ^ k := by
    intro op member
    rcases List.mem_cons.mp member with rfl | member
    · exact ⟨2, by decide, by decide, rfl⟩
    · exact ⟨1, by decide, by decide, List.mem_singleton.mp member⟩
  obtain ⟨output, ran, _, _, paired⟩ := @orders_paired Unit leastAnswers (fun _ => 0) pairArgs 2 4
    (fun _ _ _ => rfl) rfl (by decide) powers (by decide) (by decide) (by decide) (by decide) 7 ()
  exact ⟨output, ran, fun first second firstAt secondAt =>
    paired 0 1 .forward .hierarchical first second rfl firstAt rfl secondAt⟩

end CotCompression
