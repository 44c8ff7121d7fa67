import CotCompression.Export.Store
import CotCompression.Generator.Problem

set_option autoImplicit false

namespace CotCompression

open Program (Prog)
open Text (lit decimal strip)

def Told (mod : Int) (item : Record) : Prop :=
  '/' ∉ item.mode ∧ ∃ data, Generated item.op mod data ∧ item.problem = data.problemText ∧
    item.question = data.questionText ∧ Solution item.solution (data.value data.ops.length)

def AllTold (mod : Int) (items : List (List Record)) : Prop := ∀ records ∈ items, ∀ item ∈ records, Told mod item

section Loops

variable {α : Type} {loop : Sampling α} {records : α → List Record} {p : Record → Prop}

def Filed (p : Record → Prop) (state : LoopState) : Prop := ∀ filed ∈ state.items, ∀ item ∈ filed, p item

theorem Filed.settle {state : LoopState} (filed : Filed p state) : Filed p (loop.settle state) := by
  rw [Filed, Sampling.settle_items]
  exact filed

theorem Filed.pass (lawful : loop.Lawful records)
    (each : ∀ op drawn, (loop.draw op).Returns drawn → ∀ item ∈ records drawn, p item) {state : LoopState}
    (filed : Filed p state) {result : LoopState ⊕ LoopState} (returned : (loop.pass state).Returns result) :
    result.elim (Filed p) (Filed p) := by
  have added (op : Int) (drawn : α) (first : Nat) (after : LoopState) (drew : (loop.draw op).Returns drawn)
      (made : loop.file first drawn state = .ok after) : Filed p after := by
    obtain ⟨same, is, items, -, -⟩ := lawful.filed op drawn first state drew
    obtain rfl := Except.ok.inj (is.symm.trans made)
    intro list member item inside
    rw [items] at member
    obtain ⟨index, found⟩ := List.mem_iff_getElem?.mp member
    rw [List.getElem?_modify] at found
    obtain ⟨before, known, rfl⟩ := Option.map_eq_some_iff.mp found
    have old := filed before (List.mem_of_getElem? known)
    by_cases here : first = index
    · rw [if_pos here] at inside
      rcases List.mem_append.mp inside with inside | inside
      · exact old item inside
      · exact each op drawn drew item inside
    · rw [if_neg here] at inside
      exact old item inside
  cases asked : loop.listoperations[RoundRobin.leastIndex (loop.tally state)]? with
  | none =>
    rw [Sampling.pass, item, asked] at returned
    simp only [Prog.returns_bind, Prog.returns_ofExcept] at returned
    obtain ⟨_, none, -⟩ := returned
    cases none
  | some target =>
    rcases (Sampling.pass_returns lawful asked).mp returned with
      ⟨error, -, rfl⟩ | ⟨drawn, drew, first, after, -, made, rfl⟩
    · exact filed
    · have settled : Filed p (loop.settle after) := (added target drawn first after drew made).settle
      rw [Sampling.leaveOrStay]
      split
      · exact settled
      · exact settled

theorem runSampling_filed (lawful : loop.Lawful records)
    (each : ∀ op drawn, (loop.draw op).Returns drawn → ∀ item ∈ records drawn, p item) {identifier : Int} {rounds : Nat}
    {items : List (List Record)} (returned : (runSampling loop identifier rounds).Returns (some items)) :
    ∀ filed ∈ items, ∀ item ∈ filed, p item := by
  obtain ⟨final, ended, rfl⟩ := runSampling_returns.mp returned
  have start : Filed p loop.start := by
    intro filed member item inside
    obtain ⟨-, rfl⟩ := List.mem_replicate.mp member
    cases inside
  exact Prog.iterate_invariant (fun _ _ filed step => Filed.pass lawful each filed step)
    (fun _ _ filed left => Filed.pass lawful each filed left) start ended

end Loops

section Workers

variable {pyHash : Text → Int} {args : Args} {numPerWorker identifier : Int} {rounds : Nat}

theorem sample_told {op : Int} {mode : Mode} {drawn : Sample}
    (drew : (generateSample pyHash op args.numberRange args.mod mode).Returns drawn) :
    ∀ item ∈ [sampleRecord mode.text drawn], Told args.mod item := by
  obtain ⟨data, solution, chained, rendered, rfl⟩ := generateSample_returns.mp drew
  have generated := generateChain_returns chained
  intro item member
  obtain rfl := List.mem_singleton.mp member
  have flat : '/' ∉ mode.text := by cases mode <;> decide
  exact ⟨flat, data, generated, rfl, rfl, generated.rendered _ rendered⟩

theorem modeNames_flat {allNests : List Int} {variantTypes : List VariantType} {includeRightforward : Bool} :
    ∀ name ∈ modeNames allNests variantTypes includeRightforward, '/' ∉ name := by
  intro name member
  rw [modeNames, List.cons_append, List.mem_cons, List.mem_append, List.mem_map] at member
  rcases member with rfl | ⟨⟨vt, nest⟩, -, rfl⟩ | member
  · decide
  · have digits : '/' ∉ decimal nest := fun inside =>
      absurd rfl (Text.forall_decimal (p := fun c => c ≠ '/') (by decide) (by decide) nest _ inside)
    cases vt <;> simp [modeName, VariantType.text, lit, digits]
  · split at member
    · obtain rfl := List.mem_singleton.mp member
      decide
    · cases member

theorem variants_told {op : Int} {allNests : List Int} {drawn : Variants}
    (drew : (generateAllVariants pyHash op args.numberRange args.mod allNests args.variantTypes
      args.includeRightforward).Returns drawn) :
    ∀ item ∈ variantRecords (modeNames allNests args.variantTypes args.includeRightforward) drawn,
      Told args.mod item := by
  obtain ⟨data, chained, problem, question, op, keys, solved, -⟩ := generateAllVariants_returns drew
  intro item member
  obtain ⟨modes, each⟩ := variantRecords_eq keys
  obtain ⟨sameProblem, sameQuestion, sameOp, entry, inside, solution⟩ := each item member
  have named : item.mode ∈ modeNames allNests args.variantTypes args.includeRightforward :=
    modes ▸ List.mem_map_of_mem member
  refine ⟨modeNames_flat _ named, data, ?_, sameProblem.trans problem, sameQuestion.trans question,
    solution ▸ solved entry inside⟩
  rw [sameOp, op]
  exact generateChain_returns chained

theorem workModes_told {modes : List Mode} {output : List (List (List Record))}
    (returned : (workModes pyHash args numPerWorker identifier rounds modes).Returns (some output)) :
    ∀ items ∈ output, AllTold args.mod items := by
  induction modes generalizing output with
  | nil =>
    obtain rfl := Option.some.inj ((Prog.returns_pure _ _).mp returned)
    exact fun items member => absurd member List.not_mem_nil
  | cons mode modes ih =>
    simp only [workModes, Prog.returns_bind] at returned
    obtain ⟨first, ran, returned⟩ := returned
    cases first with
    | none => cases (Prog.returns_pure _ _).mp returned
    | some items =>
      simp only [Prog.returns_bind, Prog.returns_pure] at returned
      obtain ⟨rest, ended, same⟩ := returned
      obtain ⟨later, rfl, rfl⟩ := Option.map_eq_some_iff.mp same.symm
      have here : AllTold args.mod items :=
        runSampling_filed (workSampling_lawful mode) (fun op drawn drew => sample_told drew) ran
      exact List.forall_mem_cons.mpr ⟨here, ih ended⟩

theorem workFunction_told {output : List (List (List Record))}
    (returned : (workFunction pyHash args numPerWorker identifier rounds).Returns (some output)) :
    ∀ items ∈ output, AllTold args.mod items := by
  cases nests : args.allNests with
  | none =>
    simp only [workFunction, nests] at returned
    exact workModes_told returned
  | some allNests =>
    simp only [workFunction, nests, Prog.returns_bind, Prog.returns_pure] at returned
    obtain ⟨made, ran, same⟩ := returned
    obtain ⟨items, rfl, rfl⟩ := Option.map_eq_some_iff.mp same.symm
    have here : AllTold args.mod items :=
      runSampling_filed (variantSampling_lawful allNests) (fun op drawn drew => variants_told drew) ran
    exact List.forall_mem_cons.mpr ⟨here, fun items member => absurd member List.not_mem_nil⟩

end Workers

/-- The writes of any worker runs with one modulus. -/
inductive Ran (mod : Int) : List Write → Prop
  | none : Ran mod []
  | run {writes : List Write} (before : Ran mod writes) (pyHash : Text → Int) (args : Args)
      (numPerWorker identifier : Int) (rounds : Nat) (output : List (List (List Record)))
      (quota : args.numPerWorker = .ok numPerWorker) (known : 0 ≤ identifier ∧ identifier < args.numprocs)
      (modulus : args.mod = mod)
      (returned : (workFunction pyHash args numPerWorker identifier rounds).Returns (some output)) :
      Ran mod (writes ++ output.map fun items => ⟨args, identifier, items⟩)

theorem Ran.told {mod : Int} {writes : List Write} (ran : Ran mod writes) :
    ∀ write ∈ writes, AllTold mod write.items := by
  induction ran with
  | none => exact fun write member => absurd member List.not_mem_nil
  | run before pyHash args numPerWorker identifier rounds output quota known modulus returned ih =>
    intro write member
    rcases List.mem_append.mp member with member | member
    · exact ih write member
    · obtain ⟨items, inside, rfl⟩ := List.mem_map.mp member
      exact modulus ▸ workFunction_told returned items inside

theorem Ran.stored {mod : Int} {writes : List Write} (ran : Ran mod writes) :
    ∀ entry ∈ jointAfter writes, ∀ item ∈ entry.2.1, Told mod item := by
  refine jointAfter_forall (p := fun data => ∀ item ∈ data.1, Told mod item)
    (fun a b left right item member => (List.mem_append.mp member).elim (left item) (right item)) ?_
  intro write member entry inside
  obtain ⟨⟨op, records⟩, paired, rfl⟩ := List.mem_map.mp inside
  exact ran.told write member records (List.of_mem_zip paired).2

theorem Ran.collected {mod : Int} {writes : List Write} (ran : Ran mod writes) {opMin opMax maxFilesPerOp : Int} :
    ∀ item ∈ (collectFiles (filesAfter writes) opMin opMax maxFilesPerOp).flatten, Told mod item := by
  intro item member
  rw [collectFiles_eq] at member
  obtain ⟨records, inside, member⟩ := List.mem_flatten.mp member
  obtain ⟨data, found, rfl⟩ := List.mem_map.mp inside
  obtain ⟨path, stored⟩ := collectIn_subset found
  exact ran.stored _ stored item member

def solvePrompt (mod : Int) (content : Text) : Option Int := do
  let sentences := Text.split (lit ". ") content
  let facts ← sentences.dropLast.mapM readSentence
  let name ← askedName (sentences.getLastD [])
  solve facts mod (facts.length + 1) name

section Prompts

variable {op mod : Int} {data : ChainData}

theorem Generated.sentences (generated : Generated op mod data) :
    ∃ sentences : List Text, sentences ≠ [] ∧ data.problemText = Text.join (lit ". ") sentences ++ lit "." ∧
      ∀ sentence ∈ sentences, '.' ∉ sentence ∧ ∃ rest, sentence = 'T' :: rest := by
  obtain ⟨noise, -, known, sentences, perm, problem⟩ := generated.problem
  refine ⟨sentences, ?_, problem, fun sentence member => ?_⟩
  · rintro rfl
    have none := perm.symm.eq_nil
    simp [ChainData.sentences] at none
  · rcases List.mem_append.mp (perm.mem_iff.mp member) with chain | noisy
    · obtain ⟨index, within, rfl⟩ := List.getElem_of_mem chain
      have meant := generated.sentences_mean
      refine ⟨(meant.get within (meant.length_eq ▸ within)).1, ?_⟩
      rcases List.mem_cons.mp (List.getElem_mem within) with first | later
      · exact ⟨_, first⟩
      · obtain ⟨position, -, same⟩ := List.mem_map.mp later
        exact ⟨_, same.symm⟩
    · obtain ⟨entry, inside, rfl⟩ := List.mem_map.mp noisy
      have valid := known entry inside
      exact ⟨(means_literal (nodeNames_lower _ valid.1).2 valid.2).1, _, rfl⟩

theorem strip_ends {c d : Char} (t : Text) (first : Text.isSpace c = false) (last : Text.isSpace d = false) :
    strip (c :: (t ++ [d])) = c :: (t ++ [d]) := by
  rw [strip, Text.lstrip_of_head _ first, ← List.cons_append, Text.rstrip_of_last _ last]

theorem join_append {sep last : Text} {parts : List Text} (filled : parts ≠ []) :
    Text.join sep (parts ++ [last]) = Text.join sep parts ++ sep ++ last := by
  induction parts with
  | nil => exact absurd rfl filled
  | cons part parts ih =>
    cases parts with
    | nil => simp
    | cons next parts =>
      rw [List.cons_append, List.cons_append, Text.join_cons_cons, ← List.cons_append, ih (by simp),
        Text.join_cons_cons]
      simp

theorem Generated.prompt (generated : Generated op mod data) {item : Record} (problem : item.problem = data.problemText)
    (question : item.question = data.questionText) :
    ∃ sentences : List Text, sentences ≠ [] ∧ problemSentences data.problemText = sentences ∧
      Text.split (lit ". ") (prompt item) = sentences ++ [data.questionText] ∧
      prompt item = strip item.problem ++ lit " " ++ strip item.question := by
  obtain ⟨sentences, filled, shape, each⟩ := generated.sentences
  have lower := generated.name_lower le_rfl
  have asked : data.questionText = 'W' :: (lit "hat is the number of " ++ data.name data.ops.length ++ ['?']) :=
    generated.question
  obtain ⟨body, opens⟩ : ∃ body, Text.join (lit ". ") sentences = 'T' :: body := by
    obtain ⟨first, rest, rfl⟩ := List.exists_cons_of_ne_nil filled
    obtain ⟨-, more, rfl⟩ := each first (by simp)
    cases rest with
    | nil => exact ⟨more, by simp⟩
    | cons next rest => exact ⟨_, by rw [Text.join_cons_cons]; rfl⟩
  have told : strip data.problemText = data.problemText := by
    rw [shape, opens]
    exact strip_ends body (by decide) (by decide)
  have ask : strip data.questionText = data.questionText := by
    rw [asked]
    exact strip_ends _ (by decide) (by decide)
  have whole : data.problemText ++ lit " " ++ data.questionText =
      'T' :: (body ++ lit ". What is the number of " ++ data.name data.ops.length ++ ['?']) := by
    rw [shape, opens, asked]
    simp [lit]
  have solid : CotCompression.prompt item = strip item.problem ++ lit " " ++ strip item.question := by
    rw [CotCompression.prompt, problem, question, told, ask, whole, strip_ends _ (by decide) (by decide)]
  have content : CotCompression.prompt item = Text.join (lit ". ") (sentences ++ [data.questionText]) := by
    rw [solid, problem, question, told, ask, whole, join_append filled, opens, asked]
    simp [lit]
  have quiet : '.' ∉ data.questionText := by
    rw [generated.question, List.mem_append, List.mem_append]
    rintro ((front | name) | mark)
    · exact absurd front (by decide)
    · exact (lower_clear lower).1 name
    · exact absurd mark (by decide)
  refine ⟨sentences, filled, ?_, ?_, solid⟩
  · rw [problemSentences, shape]
    exact (congrArg _ List.dropLast_concat).trans
      (Text.split_join filled fun sentence member => (each sentence member).1)
  · rw [content]
    refine Text.split_join (by simp) fun part member => ?_
    rcases List.mem_append.mp member with member | member
    · exact (each part member).1
    · obtain rfl := List.mem_singleton.mp member
      exact quiet

theorem Told.solved {item : Record} (positive : 1 ≤ mod) (told : Told mod item) : ∃ answer,
    solvePrompt mod (prompt item) = some answer ∧ extractGroundTruth item.solution = some (decimal answer) ∧
      computeScore item.solution (decimal answer) = .ok 1 := by
  obtain ⟨-, data, generated, problem, question, solution⟩ := told
  have follows := generated.follows positive
  obtain ⟨sentences, filled, split, whole, -⟩ := generated.prompt problem question
  obtain ⟨facts, noise, read, perm, distinct, -⟩ := readProblem_generated generated
  rw [readProblem, split] at read
  have asked : askedName data.questionText = some (data.name data.ops.length) := by
    rw [generated.question]
    exact askedName_question (generated.name_lower le_rfl)
  have chain : data.facts ⊆ facts := fun entry member => perm.mem_iff.mpr (List.mem_append_left _ member)
  have enough : data.ops.length < facts.length + 1 := by
    have size := perm.length_eq
    simp only [ChainData.facts, List.length_append, List.length_cons, List.length_map, List.length_range] at size
    omega
  have solved := solve_chain follows distinct chain data.ops.length le_rfl _ enough
  refine ⟨data.value data.ops.length, ?_, extractGroundTruth_solution solution, computeScore_solution solution⟩
  simp [solvePrompt, whole, read, asked, solved]

end Prompts

section Rows

variable {mod : Int} {dataSource : Text}

def RowFor (mod : Int) (dataSource : Text) (item : Record) (idx : Nat) (row : RlvrRow) : Prop :=
  row.index = idx ∧ row.content = prompt item ∧ row.dataSource = dataSource ∧ ∃ answer,
    solvePrompt mod row.content = some answer ∧ row.groundTruth = decimal answer ∧
      computeScore item.solution row.groundTruth = .ok 1

theorem collectRecords_told (positive : 1 ≤ mod) {items : List Record} (told : ∀ item ∈ items, Told mod item)
    (records : List RlvrRecord) : ∃ made, collectRecords dataSource items records = records ++ made ∧
      List.Forall₂ (fun entry rec => RowFor mod dataSource entry.1 entry.2 rec.row) (items.zipIdx records.length)
        made := by
  induction items generalizing records with
  | nil => exact ⟨[], by simp [collectRecords], .nil⟩
  | cons item items ih =>
    obtain ⟨first, told⟩ := List.forall_mem_cons.mp told
    obtain ⟨answer, solved, found, scored⟩ := first.solved positive
    obtain ⟨rec, row, fits⟩ : ∃ rec, toRecord item records.length dataSource = some rec ∧
        RowFor mod dataSource item records.length rec.row := by
      rw [toRecord, found]
      exact ⟨_, rfl, rfl, rfl, rfl, answer, solved, rfl, scored⟩
    obtain ⟨made, collected, each⟩ := ih told (records ++ [rec])
    refine ⟨rec :: made, ?_, ?_⟩
    · rw [collectRecords, row]
      simp [collected]
    · rw [List.zipIdx_cons]
      exact .cons fits (by simpa using each)

variable {writes : List Write} {opMin opMax maxFilesPerOp : Int}

theorem Ran.prepares (positive : 1 ≤ mod) (ran : Ran mod writes)
    (found : collectFiles (filesAfter writes) opMin opMax maxFilesPerOp ≠ []) :
    ∃ rows, prepareTexts (diskAfter writes) opMin opMax maxFilesPerOp dataSource = .ok (some rows) ∧
      List.Forall₂ (fun entry row => RowFor mod dataSource entry.1 entry.2 row)
        (collectFiles (filesAfter writes) opMin opMax maxFilesPerOp).flatten.zipIdx rows := by
  obtain ⟨made, collected, each⟩ := @collectRecords_told mod dataSource positive _ ran.collected []
  refine ⟨made.map RlvrRecord.row, ?_, List.forall₂_map_right_iff.mpr each⟩
  rw [prepareTexts_refines, prepare]
  simp only [if_neg found, collected]
  rfl

theorem prepares_none (missing : collectFiles (filesAfter writes) opMin opMax maxFilesPerOp = []) :
    prepareTexts (diskAfter writes) opMin opMax maxFilesPerOp dataSource = .ok none := by
  rw [prepareTexts_refines, prepare, if_pos missing]
  rfl

end Rows

-- Every record the workers wrote becomes one row; its prompt alone determines the ground truth, and the item's own
-- solution earns the reward.
theorem rlvr_rows_solved {mod : Int} (positive : 1 ≤ mod) {writes : List Write} (ran : Ran mod writes)
    (opMin opMax maxFilesPerOp : Int) (dataSource : Text) :
    (collectFiles (filesAfter writes) opMin opMax maxFilesPerOp = [] ∧
      prepareTexts (diskAfter writes) opMin opMax maxFilesPerOp dataSource = .ok none) ∨
    ∃ rows, prepareTexts (diskAfter writes) opMin opMax maxFilesPerOp dataSource = .ok (some rows) ∧
      List.Forall₂ (fun entry row => RowFor mod dataSource entry.1 entry.2 row)
        (collectFiles (filesAfter writes) opMin opMax maxFilesPerOp).flatten.zipIdx rows := by
  by_cases missing : collectFiles (filesAfter writes) opMin opMax maxFilesPerOp = []
  · exact .inl ⟨missing, prepares_none missing⟩
  · exact .inr (ran.prepares positive missing)

theorem rlvr_rows_solved_leak : ∃ block rows, Ran 23 [⟨leakArgs, 0, [block]⟩] ∧
    prepareTexts (diskAfter [⟨leakArgs, 0, [block]⟩]) 2 2 1 (lit "reasoning-compression") = .ok (some rows) ∧
      List.Forall₂ (fun entry row => RowFor 23 (lit "reasoning-compression") entry.1 entry.2 row) block.zipIdx rows := by
  obtain ⟨block, chain, returned⟩ := leakArgs_returns
  have ran : Ran 23 [⟨leakArgs, 0, [block]⟩] :=
    .run .none (fun _ => 0) leakArgs 1 0 1 [[block]] rfl (by decide) rfl returned
  have collected : collectFiles (filesAfter [⟨leakArgs, 0, [block]⟩]) 2 2 1 = [block] :=
    @collectFiles_single 2 (lit "simple_op2_force_True_0.jsonl") (by decide) (by decide) block
  rcases rlvr_rows_solved (by decide) ran 2 2 1 (lit "reasoning-compression") with ⟨none, -⟩ | ⟨rows, made, each⟩
  · rw [collected] at none
    cases none
  · rw [collected, List.flatten_singleton] at each
    exact ⟨block, rows, ran, made, each⟩

end CotCompression
