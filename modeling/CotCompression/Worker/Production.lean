import CotCompression.Worker.Work

set_option autoImplicit false

namespace CotCompression

open Program (Prog)
open Program.Prog (Reaches iterate)
open RoundRobin (shares quota)
open Text (lit)

def Level (counts : List Nat) : Prop :=
  counts.Pairwise fun earlier later => later ≤ earlier ∧ earlier ≤ later + 1

-- One record for each mode in order, all about the same problem and answer.
def ChainBlock (modes : List Text) (op : Int) (block : List Record) : Prop :=
  block.map Record.mode = modes ∧ ∃ problem question answer, ∀ record ∈ block,
    record.problem = problem ∧ record.question = question ∧ record.op = op ∧
      extractGroundTruth record.solution = some answer

/-- A loop that never retries and is left after `num` turns for every op, neither sooner nor later. -/
structure MeetsQuota {α : Type} (loop : Sampling α) (num : Nat) (modes : List Text) : Prop where
  draws : ∀ op ∈ loop.listoperations, (loop.draw op).Safe
  level : ∀ state, Reaches loop.pass loop.start state →
    (loop.tally state).length = loop.listoperations.length ∧ Level (loop.tally state)
  safe : ∀ rounds, (iterate loop.pass rounds loop.start).Safe
  running : ∀ rounds (result : LoopState ⊕ LoopState), rounds < num * loop.listoperations.length →
    (iterate loop.pass rounds loop.start).Returns result → ∃ state, result = .inl state
  leaves : ∀ rounds (result : LoopState ⊕ LoopState), num * loop.listoperations.length ≤ rounds →
    (iterate loop.pass rounds loop.start).Returns result → ∃ final, result = .inr final ∧
      loop.tally final = List.replicate loop.listoperations.length num ∧
      final.items.length = loop.listoperations.length ∧
      ∀ (idx : Nat) (op : Int), loop.listoperations[idx]? = some op → ∃ blocks : List (List Record),
        blocks.length = num ∧ (∀ block ∈ blocks, ChainBlock modes op block) ∧
          final.items[idx]? = some blocks.flatten

theorem level_shares (size turns : Nat) : Level (shares size turns) := by
  refine List.pairwise_map.mpr (List.pairwise_lt_range.imp fun {first second} before => ?_)
  exact ⟨RoundRobin.quota_anti size turns first second before.le,
    RoundRobin.quota_spread size turns first second⟩

theorem shares_full (size num : Nat) (positive : 0 < size) :
    shares size (num * size) = List.replicate size num := by
  refine List.ext_getElem (by simp) fun index left right => ?_
  rw [RoundRobin.shares_getElem, RoundRobin.quota_multiple size num index positive, List.getElem_replicate]

theorem Sampling.meetsQuota {α : Type} {loop : Sampling α} {records : α → List Record} {modes : List Text}
    (lawful : loop.Lawful records) (distinct : loop.listoperations.Nodup)
    (draws : ∀ op ∈ loop.listoperations, (loop.draw op).Safe) {num : Nat} (filled : 1 ≤ num)
    (quota : loop.numPerWorker = num)
    (block : ∀ op drawn, (loop.draw op).Returns drawn → ChainBlock modes op (records drawn)) :
    MeetsQuota loop num modes := by
  have leaves := Sampling.leavesAfter lawful distinct draws quota
  have total : 0 < num * loop.listoperations.length := Nat.mul_pos filled lawful.positive
  have start := Sampling.turn_start lawful
  refine ⟨draws, fun state reached => ?_, fun rounds => leaves.iterate_safe rounds 0 _ total start,
    fun rounds result early returned => ?_, fun rounds result late returned => ?_⟩
  · obtain ⟨passes, _, turn⟩ := leaves.reaches total start reached
    rw [turn.tally]
    exact ⟨RoundRobin.shares_length _ _, level_shares _ _⟩
  · rcases result with state | final
    · exact ⟨state, rfl⟩
    · have past := (leaves.iterate_inr rounds 0 _ _ total start returned).1
      omega
  · rcases result with state | final
    · have before := (leaves.iterate_inl rounds 0 _ _ total start returned).1
      omega
    · have turn := (leaves.iterate_inr rounds 0 _ _ total start returned).2
      refine ⟨final, rfl, by rw [turn.tally, shares_full _ _ lawful.positive], turn.length, ?_⟩
      intro idx op found
      obtain ⟨drawn, count, each, items⟩ := turn.blocks idx op found
      rw [RoundRobin.quota_multiple _ _ _ lawful.positive] at count
      refine ⟨drawn.map records, by rw [List.length_map, count], ?_, by rw [items, List.flatMap_def]⟩
      intro block' member
      obtain ⟨value, inside, rfl⟩ := List.mem_map.mp member
      exact block op value (each value inside)

section Loops

variable {pyHash : Text → Int} {args : Args} {op : Int}

def Mode.Takes (mode : Mode) (op : Int) : Prop := mode = .hierarchical → ∃ k, 1 ≤ k ∧ op = 2 ^ k

theorem Mode.Takes.accepts {mode : Mode} {op : Nat} (takes : mode.Takes op) : mode.renderer.Accepts op := by
  cases mode with
  | forward => trivial
  | backward => trivial
  | hierarchical =>
    obtain ⟨k, exponent, power⟩ := takes rfl
    exact power_accepted exponent (by exact_mod_cast power)

theorem generateSample_safe {numberRange mod : Int} {mode : Mode}
    (chain : (generateChain op numberRange mod).Safe) (takes : mode.Takes op) :
    (generateSample pyHash op numberRange mod mode).Safe := by
  intro error raised
  simp only [generateSample, Prog.raises_bind, Prog.raises_pure, and_false, exists_false, false_or] at raised
  rcases raised with ⟨data, chained, raised⟩ | raised
  · have generated := generateChain_returns chained
    rw [← generated.length] at takes
    exact (generated.render _ takes.accepts).1 error raised
  · exact chain error raised

theorem variants_accept {allNests : List Int} {variantTypes : List VariantType} (op : Nat)
    (nests : ∀ nest ∈ allNests, 1 ≤ nest) :
    ∀ pair ∈ variantPairs allNests variantTypes, (pair.1.renderer pair.2).Accepts op := by
  intro pair member
  obtain ⟨nest, known, inside⟩ := List.mem_flatMap.mp member
  obtain ⟨vt, _, rfl⟩ := List.mem_map.mp inside
  have low := nests nest known
  cases vt with
  | composed => exact .inr (by omega)
  | implicit => exact fun zero => by omega

theorem sample_block {numberRange mod : Int} {mode : Mode} {drawn : Sample}
    (returned : (generateSample pyHash op numberRange mod mode).Returns drawn) :
    ChainBlock [mode.text] op [sampleRecord mode.text drawn] := by
  obtain ⟨data, solution, chained, rendered, rfl⟩ := generateSample_returns.mp returned
  have solved := (generateChain_returns chained).rendered _ rendered
  refine ⟨rfl, data.problemText, data.questionText, Text.decimal (data.value data.ops.length), ?_⟩
  intro record member
  obtain rfl := List.mem_singleton.mp member
  exact ⟨rfl, rfl, rfl, extractGroundTruth_solution solved⟩

theorem variantRecords_eq {drawn : Variants} {names : List Text}
    (known : ∀ name ∈ names, name ∈ drawn.results.map Prod.fst) :
    (variantRecords names drawn).map Record.mode = names ∧ ∀ record ∈ variantRecords names drawn,
      record.problem = drawn.problem ∧ record.question = drawn.question ∧ record.op = drawn.op ∧
        ∃ entry ∈ drawn.results, record.solution = entry.2.1 := by
  obtain ⟨made, rendered, each⟩ := mapM_exists (p := fun record : Record =>
      record.problem = drawn.problem ∧ record.question = drawn.question ∧ record.op = drawn.op ∧
        ∃ entry ∈ drawn.results, record.solution = entry.2.1) fun name member => by
    obtain ⟨entry, is, inside⟩ := variantRecord_ok (known name member)
    exact ⟨_, is, rfl, rfl, rfl, _, inside, rfl⟩
  have same : variantRecords names drawn = made := by
    rw [variantRecords, rendered]
    rfl
  rw [same]
  refine ⟨?_, each⟩
  have named := mapM_forall₂ rendered
  clear each rendered same
  induction named with
  | nil => rfl
  | @cons name record names made here _ ih =>
    obtain ⟨entry, is, _⟩ := variantRecord_ok (known name (by simp))
    rw [is] at here
    rw [List.map_cons, ih fun name member => known name (List.mem_cons_of_mem _ member),
      ← Except.ok.inj here]
    rfl

theorem variants_block {numberRange mod : Int} {allNests : List Int} {variantTypes : List VariantType}
    {includeRightforward : Bool} {drawn : Variants}
    (returned : (generateAllVariants pyHash op numberRange mod allNests variantTypes
      includeRightforward).Returns drawn) :
    ChainBlock (modeNames allNests variantTypes includeRightforward) op
      (variantRecords (modeNames allNests variantTypes includeRightforward) drawn) := by
  obtain ⟨data, _, _, _, same, keys, solved, _⟩ := generateAllVariants_returns returned
  obtain ⟨modes, each⟩ := variantRecords_eq keys
  refine ⟨modes, drawn.problem, drawn.question, Text.decimal (data.value data.ops.length), ?_⟩
  intro record member
  obtain ⟨problem, question, op, entry, inside, solution⟩ := each record member
  exact ⟨problem, question, op.trans same, solution ▸ extractGroundTruth_solution (solved entry inside)⟩

theorem workSampling_meetsQuota {num : Nat} {mode : Mode}
    (chain : ∀ op ∈ args.listoperations, (generateChain op args.numberRange args.mod).Safe)
    (distinct : args.listoperations.Nodup) (takes : ∀ op ∈ args.listoperations, mode.Takes op)
    (filled : 1 ≤ num) : MeetsQuota (workSampling pyHash args num mode) num [mode.text] :=
  Sampling.meetsQuota (workSampling_lawful mode) distinct
    (fun op member => generateSample_safe (chain op member) (takes op member)) filled rfl
    fun _ _ drew => sample_block drew

theorem variantSampling_meetsQuota {num : Nat} {allNests : List Int}
    (chain : ∀ op ∈ args.listoperations, (generateChain op args.numberRange args.mod).Safe)
    (distinct : args.listoperations.Nodup) (nests : ∀ nest ∈ allNests, 1 ≤ nest) (filled : 1 ≤ num) :
    MeetsQuota (variantSampling pyHash args num allNests) num
      (modeNames allNests args.variantTypes args.includeRightforward) :=
  Sampling.meetsQuota (variantSampling_lawful allNests) distinct
    (fun op member => generateAllVariants_safe (chain op member) (variants_accept op.toNat nests)) filled rfl
    fun _ _ drew => variants_block drew

end Loops

def countMode (mode : Text) (idx : Nat) (items : List (List Record)) : Nat :=
  (items.getD idx []).countP fun record => record.mode == mode

def produced (outputs : List (List (List (List Record)))) (idx : Nat) (mode : Text) : Nat :=
  (outputs.flatten.map (countMode mode idx)).sum

theorem chainBlock_count {modes : List Text} {op : Int} {blocks : List (List Record)} (mode : Text)
    (each : ∀ block ∈ blocks, ChainBlock modes op block) :
    blocks.flatten.countP (fun record => record.mode == mode) = blocks.length * modes.count mode := by
  induction blocks with
  | nil => simp
  | cons block blocks ih =>
    obtain ⟨modes', _⟩ := each block (by simp)
    have here : block.countP (fun record => record.mode == mode) = modes.count mode := by
      rw [← modes', List.count, List.countP_map]
      rfl
    rw [List.flatten_cons, List.countP_append, here,
      ih fun b member => each b (List.mem_cons_of_mem _ member), List.length_cons, Nat.succ_mul, Nat.add_comm]

def Appends (args : Args) (num : Nat) (modes : List Text) (result : Option (List (List (List Record)))) :
    Prop :=
  ∃ output, result = some output ∧ ∀ idx < args.listoperations.length, ∀ mode,
    (output.map (countMode mode idx)).sum = num * modes.count mode

section Workers

variable (pyHash : Text → Int) {args : Args} {num : Nat} (identifier : Int) {rounds : Nat}

theorem runSampling_meets {α : Type} {loop : Sampling α} {modes : List Text}
    (meets : MeetsQuota loop num modes) (enough : num * loop.listoperations.length ≤ rounds) :
    (runSampling loop identifier rounds).Safe ∧
      ∀ result, (runSampling loop identifier rounds).Returns result → ∃ items, result = some items ∧
        ∀ idx < loop.listoperations.length, ∀ mode, countMode mode idx items = num * modes.count mode := by
  constructor
  · intro error raised
    simp only [runSampling, Prog.raises_bind, raises_seed, or_false, returns_seed, true_and] at raised
    obtain ⟨_, ⟨state | final, _, raised⟩ | raised⟩ := raised
    · exact (Prog.raises_pure _ _).mp raised
    · exact (Prog.raises_pure _ _).mp raised
    · exact meets.safe rounds error raised
  · intro result returned
    simp only [runSampling, Prog.returns_bind, returns_seed, true_and] at returned
    obtain ⟨_, left, ended, returned⟩ := returned
    obtain ⟨final, rfl, _, length, ops⟩ := meets.leaves rounds left enough ended
    obtain rfl := (Prog.returns_pure _ _).mp returned
    refine ⟨final.items, rfl, fun idx within mode => ?_⟩
    obtain ⟨blocks, count, each, items⟩ := ops idx _ (List.getElem?_eq_getElem within)
    rw [countMode, List.getD_eq_getElem?_getD, items, Option.getD_some, chainBlock_count mode each, count]

theorem workModes_appends (modes : List Mode)
    (meets : ∀ mode ∈ modes, MeetsQuota (workSampling pyHash args num mode) num [mode.text])
    (enough : num * args.listoperations.length ≤ rounds) :
    (workModes pyHash args num identifier rounds modes).Safe ∧
      ∀ result, (workModes pyHash args num identifier rounds modes).Returns result →
        Appends args num (modes.map Mode.text) result := by
  induction modes with
  | nil =>
    refine ⟨fun error raised => (Prog.raises_pure _ _).mp raised, fun result returned => ?_⟩
    obtain rfl := (Prog.returns_pure _ _).mp returned
    exact ⟨[], rfl, by simp⟩
  | cons mode modes ih =>
    obtain ⟨safe, runs⟩ := runSampling_meets identifier (meets mode (by simp)) enough
    obtain ⟨later, appends⟩ := ih fun mode member => meets mode (List.mem_cons_of_mem _ member)
    constructor
    · intro error raised
      simp only [workModes, Prog.raises_bind] at raised
      rcases raised with ⟨result, ran, raised⟩ | raised
      · obtain ⟨items, rfl, _⟩ := runs result ran
        simp only [Prog.raises_bind, Prog.raises_pure, and_false, exists_false, false_or] at raised
        exact later error raised
      · exact safe error raised
    · intro result returned
      simp only [workModes, Prog.returns_bind] at returned
      obtain ⟨first, ran, returned⟩ := returned
      obtain ⟨items, rfl, counts⟩ := runs first ran
      simp only [Prog.returns_bind, Prog.returns_pure] at returned
      obtain ⟨rest, ended, rfl⟩ := returned
      obtain ⟨output, rfl, sums⟩ := appends rest ended
      refine ⟨items :: output, rfl, fun idx within name => ?_⟩
      have more : (mode :: modes).map Mode.text = [mode.text] ++ modes.map Mode.text := rfl
      rw [List.map_cons, List.sum_cons, counts idx within name, sums idx within name, more, List.count_append,
        Nat.mul_add]

def Args.Served (args : Args) : Prop :=
  match args.allNests with
  | some allNests => ∀ nest ∈ allNests, 1 ≤ nest
  | none => ∀ mode ∈ args.modes, ∀ op ∈ args.listoperations, mode.Takes op

theorem workFunction_appends
    (chain : ∀ op ∈ args.listoperations, (generateChain op args.numberRange args.mod).Safe)
    (distinct : args.listoperations.Nodup) (served : args.Served) (filled : 1 ≤ num)
    (enough : num * args.listoperations.length ≤ rounds) :
    (workFunction pyHash args num identifier rounds).Safe ∧
      ∀ result, (workFunction pyHash args num identifier rounds).Returns result →
        Appends args num args.modeTexts result := by
  cases nests : args.allNests with
  | none =>
    simp only [Args.Served, nests] at served
    simp only [workFunction, Args.modeTexts, nests]
    exact workModes_appends pyHash identifier args.modes (fun mode member =>
      workSampling_meetsQuota chain distinct (served mode member) filled) enough
  | some allNests =>
    simp only [Args.Served, nests] at served
    simp only [workFunction, Args.modeTexts, nests]
    obtain ⟨safe, runs⟩ := runSampling_meets identifier
      (@variantSampling_meetsQuota pyHash _ _ _ chain distinct served filled) enough
    constructor
    · intro error raised
      simp only [Prog.raises_bind, Prog.raises_pure, and_false, exists_false, false_or] at raised
      exact safe error raised
    · intro result returned
      simp only [Prog.returns_bind, Prog.returns_pure] at returned
      obtain ⟨made, ran, rfl⟩ := returned
      obtain ⟨items, rfl, counts⟩ := runs made ran
      exact ⟨[items], rfl, fun idx within mode => by simp [counts idx within mode]⟩

theorem produced_eq {outputs : List (List (List (List Record)))} {modes : List Text} {idx : Nat}
    (within : idx < args.listoperations.length) (mode : Text)
    (each : ∀ output ∈ outputs, Appends args num modes (some output)) :
    produced outputs idx mode = outputs.length * (num * modes.count mode) := by
  induction outputs with
  | nil => simp [produced]
  | cons output outputs ih =>
    obtain ⟨_, same, sums⟩ := each output (by simp)
    obtain rfl := Option.some.inj same
    have rest := ih fun output member => each output (List.mem_cons_of_mem _ member)
    rw [produced] at rest ⊢
    rw [List.flatten_cons, List.map_append, List.sum_append, sums idx within mode, rest, List.length_cons,
      Nat.succ_mul, Nat.add_comm]

theorem numPerWorker_bounds (total : 1 ≤ args.total) (numprocs : 1 ≤ args.numprocs) :
    ∃ num : Nat, args.numPerWorker = .ok num ∧ 1 ≤ num ∧ args.total ≤ args.numprocs * num ∧
      args.numprocs * num < args.total + args.numprocs := by
  have low := Int.mul_ediv_self_le (x := args.total + args.numprocs - 1) (k := args.numprocs) (by omega)
  have high := Int.lt_mul_ediv_self_add (x := args.total + args.numprocs - 1) (k := args.numprocs) (by omega)
  have some : 1 ≤ (args.total + args.numprocs - 1) / args.numprocs :=
    (Int.le_ediv_iff_mul_le (by omega)).mpr (by omega)
  obtain ⟨num, is⟩ := Int.eq_ofNat_of_zero_le (by omega : 0 ≤ (args.total + args.numprocs - 1) / args.numprocs)
  rw [is] at low high some
  refine ⟨num, ?_, by exact_mod_cast some, by omega, by omega⟩
  rw [Args.numPerWorker, pyDiv, if_neg (by omega), Int.fdiv_eq_ediv_of_nonneg _ (by omega), is]

end Workers

-- No draw of a served worker raises, every loop is left after `num` turns for each op, and the
-- workers together reach the total with less than one more record for each of them.
theorem quotas_met {args : Args} (distinct : args.listoperations.Nodup)
    (small : ∀ op ∈ args.listoperations, 0 ≤ op ∧ op ≤ 199) (range : 3 ≤ args.numberRange)
    (positive : 1 ≤ args.mod) :
    (∀ (pyHash : Text → Int) (mode : Mode) (num : Nat), (∀ op ∈ args.listoperations, mode.Takes op) →
      1 ≤ num → MeetsQuota (workSampling pyHash args num mode) num [mode.text]) ∧
    (∀ (pyHash : Text → Int) (allNests : List Int) (num : Nat), (∀ nest ∈ allNests, 1 ≤ nest) →
      1 ≤ num → MeetsQuota (variantSampling pyHash args num allNests) num
        (modeNames allNests args.variantTypes args.includeRightforward)) ∧
    (1 ≤ args.total → 1 ≤ args.numprocs → args.Served → ∃ num : Nat, args.numPerWorker = .ok num ∧
      ∀ rounds, num * args.listoperations.length ≤ rounds →
        (∀ pyHash identifier, (workFunction pyHash args num identifier rounds).Safe ∧
          ¬ (workFunction pyHash args num identifier rounds).Returns none) ∧
        ∀ outputs : List (List (List (List Record))), outputs.length = args.numprocs →
          (∀ (identifier : Nat) output, outputs[identifier]? = some output → ∃ pyHash,
            (workFunction pyHash args num identifier rounds).Returns (some output)) →
          ∀ idx < args.listoperations.length, ∀ mode ∈ args.modeTexts,
            args.modeTexts.count mode * args.total ≤ produced outputs idx mode ∧
              produced outputs idx mode < args.modeTexts.count mode * (args.total + args.numprocs)) := by
  have chain : ∀ op ∈ args.listoperations, (generateChain op args.numberRange args.mod).Safe :=
    fun op member => generateChain_safe (small op member).1 (small op member).2 range positive
  refine ⟨fun pyHash mode num takes filled => workSampling_meetsQuota chain distinct takes filled,
    fun pyHash allNests num nests filled => variantSampling_meetsQuota chain distinct nests filled,
    fun total numprocs served => ?_⟩
  obtain ⟨num, is, filled, least, most⟩ := numPerWorker_bounds total numprocs
  refine ⟨num, is, fun rounds enough => ?_⟩
  have works (pyHash : Text → Int) (identifier : Int) :=
    workFunction_appends pyHash identifier chain distinct served filled enough
  refine ⟨fun pyHash identifier => ⟨(works pyHash identifier).1, fun unfinished => ?_⟩, ?_⟩
  · obtain ⟨_, none, _⟩ := (works pyHash identifier).2 _ unfinished
    cases none
  · intro outputs count each idx within mode member
    have appended : ∀ output ∈ outputs, Appends args num args.modeTexts (some output) := by
      intro output inside
      obtain ⟨identifier, found⟩ := List.mem_iff_getElem?.mp inside
      obtain ⟨pyHash, returned⟩ := each identifier output found
      exact (works pyHash identifier).2 _ returned
    have present : 0 < args.modeTexts.count mode := List.count_pos_iff.mpr member
    have made : (produced outputs idx mode : Int) = args.modeTexts.count mode * (args.numprocs * num) := by
      rw [produced_eq within mode appended, ← count]
      push_cast
      ring
    rw [made]
    exact ⟨Int.mul_le_mul_of_nonneg_left least (by omega), Int.mul_lt_mul_of_pos_left most (by omega)⟩

def pairArgs : Args where
  force := true
  mod := 5
  numberRange := 3
  listoperations := [4, 2]
  modes := [.forward, .hierarchical]
  total := 3
  numprocs := 2
  allNests := none
  variantTypes := [.composed, .implicit]
  includeRightforward := false
  listoperations_filled := by decide
  modes_filled := by decide
  allNests_filled := by decide
  variantTypes_filled := by decide

theorem pairArgs_takes (mode : Mode) : ∀ op ∈ pairArgs.listoperations, mode.Takes op := by
  intro op member _
  rcases List.mem_cons.mp member with rfl | member
  · exact ⟨2, by decide, rfl⟩
  · exact ⟨1, by decide, List.mem_singleton.mp member⟩

theorem quotas_met_pair :
    MeetsQuota (workSampling (fun _ => 0) pairArgs (2 : Nat) .hierarchical) 2 [lit "hierarchical"] ∧
      MeetsQuota (variantSampling (fun _ => 0) pairArgs (1 : Nat) [2]) 1
        [lit "explicit", lit "composed-nest2", lit "implicit-nest2"] ∧
      ∃ num : Nat, pairArgs.numPerWorker = .ok num ∧ ∃ first second,
        (workFunction (fun _ => 0) pairArgs num 0 (num * 2)).Returns (some first) ∧
        (workFunction (fun _ => 0) pairArgs num 1 (num * 2)).Returns (some second) ∧
        ∀ idx < 2, ∀ mode ∈ [lit "forward", lit "hierarchical"],
          3 ≤ produced [first, second] idx mode ∧ produced [first, second] idx mode < 5 := by
  obtain ⟨work, variants, workers⟩ := @quotas_met pairArgs (by decide) (by decide) (by decide) (by decide)
  refine ⟨work _ _ 2 (pairArgs_takes _) (by decide), variants _ [2] 1 (by decide) (by decide), ?_⟩
  obtain ⟨num, is, runs⟩ := workers (by decide) (by decide) fun mode _ => pairArgs_takes mode
  obtain ⟨each, totals⟩ := runs (num * 2) le_rfl
  have returns (identifier : Int) : ∃ output,
      (workFunction (fun _ => 0) pairArgs num identifier (num * 2)).Returns (some output) := by
    obtain ⟨result, returned⟩ := exists_returns (each (fun _ => 0) identifier).1
    cases result with
    | none => exact absurd returned (each _ identifier).2
    | some output => exact ⟨output, returned⟩
  obtain ⟨first, one⟩ := returns 0
  obtain ⟨second, two⟩ := returns 1
  refine ⟨num, is, first, second, one, two, fun idx within mode member => ?_⟩
  have reached := totals [first, second] rfl (fun identifier output found => ⟨fun _ => 0, ?_⟩) idx within mode member
  · have once : pairArgs.modeTexts.count mode = 1 := by
      simp only [List.mem_cons, List.not_mem_nil, or_false] at member
      rcases member with rfl | rfl <;> decide
    have bounds : pairArgs.total = 3 ∧ pairArgs.numprocs = 2 := ⟨rfl, rfl⟩
    rw [once, bounds.1, bounds.2] at reached
    omega
  · match identifier, found with
    | 0, found => rwa [← Option.some.inj found]
    | 1, found => rwa [← Option.some.inj found]

end CotCompression
