import CotCompression.Export.Solved
import CotCompression.Export.Written

set_option autoImplicit false

open Json (Value)

namespace CotCompression.Sft

open Text (lit strip)
open Jsonl (fileLines solidLines rows)

-- Missing, null or a string; of anything else strip() is not to be had.
def fieldOf (fields : List (Text × Value)) (key : Text) : Option Field :=
  match fields.lookup key with
  | none => some .absent
  | some .null => some .null
  | some (.string text) => some (.str text)
  | some _ => none

-- json.loads
def decode (line : Text) : Option Obj :=
  match Json.loads line with
  | some (.object fields) => do
    return {
      mode := ← fieldOf fields (lit "mode")
      problem := ← fieldOf fields (lit "problem")
      question := ← fieldOf fields (lit "question")
      solution := ← fieldOf fields (lit "solution") }
  | _ => none

def inDir {α β : Type} (op : Int) (made : Text → α → β) (entry : (Int × Text) × α) : Option β :=
  if entry.1.1 = op then some (made entry.1.2 entry.2) else none

theorem of_inDir {α β : Type} {op : Int} {made : Text → α → β} {entry : (Int × Text) × α} {found : β}
    (is : inDir op made entry = some found) : entry.1.1 = op ∧ made entry.1.2 entry.2 = found := by
  rw [inDir] at is
  split at is
  · next here => exact ⟨here, Option.some.inj is⟩
  · cases is

def inputFile (name text : Text) : InputFile := ⟨name, fileLines text⟩

def opDir (disk : Disk) (op : Int) : Option (List InputFile) :=
  let files := disk.filterMap (inDir op inputFile)
  if files = [] then none else some files

-- The workers' output directory, with and without --flat_output.
def rootOf (flatOutput : Bool) (name : Text) (disk : Disk) : DataRoot where
  name
  plain := if flatOutput then opDir disk else fun _ => none
  zeroContext := if flatOutput then fun _ => none else opDir disk

section Content

theorem sftFields_exact (rec : SftRecord) : (Value.object (sftFields rec)).Exact := by
  have keys : ([lit "instruction", lit "output", lit "system"] : List Text).Nodup := by decide
  exact ⟨keys, trivial, trivial, trivial, trivial⟩

theorem read_content (records : List SftRecord) :
    Jsonl.read (content records) = some (records.map fun rec => .object (sftFields rec)) := by
  have exact : ∀ fields ∈ records.map sftFields, (Value.object fields).Exact := by
    intro fields member
    obtain ⟨rec, -, rfl⟩ := List.mem_map.mp member
    exact sftFields_exact rec
  have text : content records = (rows false (records.map sftFields)).flatMap (fun line => line ++ ['\n']) ++ [] := by
    rw [content, rows, List.map_map, List.flatMap_map, List.append_nil]
    rfl
  rw [Jsonl.read, text, Jsonl.solidLines_rows exact, show solidLines [] = [] from rfl, List.append_nil,
    Jsonl.loads_rows exact, List.map_map]
  rfl

end Content

section Input

def objOf (item : Record) : Obj where
  mode := .str item.mode
  problem := .str item.problem
  question := .str item.question
  solution := .str item.solution

theorem decode_item (item : Record) : decode (Json.dumps true (.object (itemFields item))) = some (objOf item) := by
  rw [decode, Json.loads_dumps _ (itemFields_exact item)]
  rfl

-- sorted(base.glob("*.jsonl")) of an op directory
def jsonlIn {α : Type} (files : List ((Int × Text) × α)) (op : Int) : List (Text × α) :=
  ((files.filterMap (inDir op Prod.mk)).filter fun file =>
    decide (lit ".jsonl" <:+ file.1)).mergeSort fun first second => decide (first.1 ≤ second.1)

theorem globJsonl_opDir (joint : List ((Int × Text) × Joint)) (op : Int) :
    globJsonl (opDir (joint.map (Prod.map id Prod.snd)) op) =
      (jsonlIn joint op).map fun file => ⟨file.1, fileLines file.2.2⟩ := by
  have files : (joint.map (Prod.map id Prod.snd)).filterMap (inDir op inputFile) =
      (joint.filterMap (inDir op Prod.mk)).map fun file => ⟨file.1, fileLines file.2.2⟩ := by
    rw [List.filterMap_map, List.map_filterMap]
    refine List.filterMap_congr fun entry _ => ?_
    by_cases here : entry.1.1 = op <;> simp [inDir, inputFile, here]
  have base : (opDir (joint.map (Prod.map id Prod.snd)) op).getD [] =
      (joint.filterMap (inDir op Prod.mk)).map fun file => ⟨file.1, fileLines file.2.2⟩ := by
    rw [opDir, files]
    split
    · next none => rw [none]; rfl
    · rfl
  rw [globJsonl, base, List.filter_map, jsonlIn,
    List.map_mergeSort (s := fun first second : InputFile => decide (first.name ≤ second.name)) (by simp)]
  rfl

def readFiles (joint : List ((Int × Text) × Joint)) (opMin opMax : Int) : List Joint :=
  (List.range (opMax + 1 - opMin).toNat).flatMap fun index : Nat => (jsonlIn joint (opMin + index)).map Prod.snd

theorem findInputFiles_lines (flatOutput : Bool) (name : Text) (joint : List ((Int × Text) × Joint))
    (opMin opMax : Int) :
    (findInputFiles (rootOf flatOutput name (joint.map (Prod.map id Prod.snd))) opMin opMax).map
        (fun file => file.2.lines) = (readFiles joint opMin opMax).map fun data => fileLines data.2 := by
  have missing : globJsonl none = [] := by simp [globJsonl]
  rw [findInputFiles, readFiles, List.map_flatMap, List.map_flatMap]
  refine List.flatMap_congr fun index _ => ?_
  cases flatOutput <;> simp [rootOf, missing, globJsonl_opDir, Function.comp_def]

end Input

section Records

variable {args : Args} {items : List Record} {lines : List Text}

def exportOf (args : Args) (item : Record) : SftRecord where
  instruction := strip item.problem ++ lit " " ++ strip item.question
  output := strip item.solution
  system := args.systemPrompt

def exported (args : Args) (items : List Record) (mode : Text) : List SftRecord :=
  capped args
    ((items.filter fun item => decide (item.mode = mode) && !filteredOut args (some mode)).map (exportOf args))

def Solid (item : Record) : Prop := strip item.problem ≠ [] ∧ strip item.question ≠ [] ∧ strip item.solution ≠ []

theorem Solid.record {item : Record} (solid : Solid item) : (objOf item).record args = some (exportOf args item) := by
  obtain ⟨problem, question, solution⟩ := solid
  simp [Obj.record, objOf, Field.stripped, problem, question, solution, exportOf]

theorem filterMap_strip {β : Type} (f : Text → Option β) (lines : List Text) :
    lines.filterMap (fun line => if strip line = [] then none else f (strip line)) =
      ((lines.map strip).filter fun line => decide (line ≠ [])).filterMap f := by
  induction lines with
  | nil => rfl
  | cons line lines ih =>
    by_cases blank : strip line = []
    · rw [List.filterMap_cons_none (by rw [if_pos blank]), List.map_cons, List.filter_cons_of_neg (by simp [blank]), ih]
    · rw [List.map_cons, List.filter_cons_of_pos (by simp [blank]), List.filterMap_cons, List.filterMap_cons,
        if_neg blank, ih]

def Lists (lines : List Text) (items : List Record) : Prop :=
  ((lines.map strip).filter fun line => decide (line ≠ [])) = rows true (items.map itemFields)

theorem Lists.line (lists : Lists lines items) {line : Text} (member : line ∈ lines) (filled : strip line ≠ []) :
    ∃ item ∈ items, strip line = Json.dumps true (.object (itemFields item)) := by
  have inside : strip line ∈ (lines.map strip).filter fun line => decide (line ≠ []) :=
    List.mem_filter.mpr ⟨List.mem_map_of_mem member, by simpa using filled⟩
  rw [lists, rows, List.map_map] at inside
  obtain ⟨item, known, same⟩ := List.mem_map.mp inside
  exact ⟨item, known, same.symm⟩

theorem Lists.candidate (lists : Lists lines items) {line : Text} (member : line ∈ lines) {obj : Obj}
    (found : candidate decode args line = some obj) : ∃ item ∈ items, obj = objOf item := by
  obtain ⟨filled, read, -⟩ := candidate_some found
  obtain ⟨item, known, same⟩ := lists.line member filled
  rw [same, decode_item] at read
  exact ⟨item, known, (Option.some.inj read).symm⟩

def recordOn (args : Args) (mode : Text) (line : Text) : Option SftRecord :=
  (decode line).bind fun obj =>
    if filteredOut args obj.modeOf then none else if obj.modeOf = some mode then obj.record args else none

theorem recordFor_eq (mode line : Text) : recordFor decode args (some mode) line =
    if strip line = [] then none else recordOn args mode (strip line) := by
  rw [recordFor, candidate_eq]
  split
  · rfl
  · rw [recordOn]
    cases decode (strip line) with
    | none => rfl
    | some obj =>
      simp only [Option.filter_some, Option.bind_some]
      cases filteredOut args obj.modeOf <;> simp [name_mode, sftOf_eq]

theorem recordOn_rows (solid : ∀ item ∈ items, Solid item) (mode : Text) :
    (rows true (items.map itemFields)).filterMap (recordOn args mode) =
      (items.filter fun item => decide (item.mode = mode) && !filteredOut args (some mode)).map (exportOf args) := by
  rw [rows, List.map_map]
  induction items with
  | nil => rfl
  | cons item items ih =>
    obtain ⟨first, solid⟩ := List.forall_mem_cons.mp solid
    have named : (objOf item).modeOf = some item.mode := rfl
    rw [List.map_cons, List.filterMap_cons, ih solid]
    simp only [Function.comp_apply, recordOn, decode_item, Option.bind_some, named, first.record, Option.some.injEq]
    by_cases here : item.mode = mode
    · subst here
      cases filteredOut args (some item.mode) <;> simp
    · cases filteredOut args (some item.mode) <;> simp [here]

theorem Lists.written (lists : Lists lines items) (solid : ∀ item ∈ items, Solid item) (mode : Text) :
    written decode args lines (some mode) = exported args items mode := by
  rw [Sft.written, funext (recordFor_eq mode), filterMap_strip (recordOn args mode), lists, recordOn_rows solid,
    exported]

theorem Lists.undecodable (lists : Lists lines items) : undecodable decode lines = 0 := by
  rw [Sft.undecodable, List.countP_eq_zero]
  intro line member
  by_cases filled : strip line = []
  · simp [filled]
  · obtain ⟨item, -, same⟩ := lists.line member filled
    simp [same, decode_item]

theorem Lists.blanks (lists : Lists lines items) (solid : ∀ item ∈ items, Solid item) :
    blanks decode args lines = 0 := by
  have each (rest before : List Text) (inside : ∀ line ∈ rest, line ∈ lines) :
      blanksFrom decode args before rest = 0 := by
    induction rest generalizing before with
    | nil => rfl
    | cons line rest ih =>
      obtain ⟨here, inside⟩ := List.forall_mem_cons.mp inside
      have filled : blankAt decode args before line = false := by
        rw [blankAt]
        cases found : Sft.candidate decode args line with
        | none => rfl
        | some obj =>
          obtain ⟨item, known, rfl⟩ := lists.candidate here found
          simp [sftOf_eq, (solid item known).record]
      rw [blanksFrom, filled, ih _ inside]
      rfl
  exact each lines [] fun _ member => member

end Records

section Workers

variable {mod : Int} {writes : List Write}

def readItems (writes : List Write) (opMin opMax : Int) : List Record :=
  ((readFiles (jointAfter writes) opMin opMax).map Prod.fst).flatten

theorem readFiles_subset {joint : List ((Int × Text) × Joint)} {opMin opMax : Int} {data : Joint}
    (member : data ∈ readFiles joint opMin opMax) : ∃ path, (path, data) ∈ joint := by
  obtain ⟨index, -, member⟩ := List.mem_flatMap.mp member
  obtain ⟨file, sorted, rfl⟩ := List.mem_map.mp member
  have found := (List.mem_filter.mp (List.mem_mergeSort.mp sorted)).1
  obtain ⟨⟨path, data⟩, inside, picked⟩ := List.mem_filterMap.mp found
  obtain ⟨-, rfl⟩ := of_inDir picked
  exact ⟨path, inside⟩

theorem inputLines_lists (writes : List Write) (args : Args) (flatOutput : Bool) (name : Text) :
    Lists (inputLines args (rootOf flatOutput name (diskAfter writes))) (readItems writes args.opMin args.opMax) := by
  have lines : inputLines args (rootOf flatOutput name (diskAfter writes)) =
      ((readFiles (jointAfter writes) args.opMin args.opMax).map Prod.snd).flatMap fileLines := by
    rw [inputLines, scanned, List.flatMap_def, diskAfter_eq, findInputFiles_lines, List.flatMap_map, List.flatMap_def]
  rw [Lists, lines, solidLines_texts fun data member => ?_, readItems]
  obtain ⟨path, inside⟩ := readFiles_subset member
  exact jointAfter_reads writes _ inside

theorem Ran.items (ran : Ran mod writes) {opMin opMax : Int} :
    ∀ item ∈ readItems writes opMin opMax, Told mod item := by
  intro item member
  obtain ⟨records, inside, member⟩ := List.mem_flatten.mp member
  obtain ⟨data, found, rfl⟩ := List.mem_map.mp inside
  obtain ⟨path, stored⟩ := readFiles_subset found
  exact ran.stored _ stored item member

theorem strip_solution {s : Text} {answer : Int} (solution : Solution s answer) :
    strip s ≠ [] ∧ extractGroundTruth (strip s) = some (Text.decimal answer) := by
  obtain ⟨front, rfl, -, dot⟩ := solution_split solution
  have kept : (front.dropWhile Text.isSpace).isEmpty = false := by
    rw [List.isEmpty_eq_false_iff, ne_eq, List.dropWhile_eq_nil_iff]
    exact fun blank => absurd (blank _ dot) (by decide)
  have stripped : strip (front ++ (answerMarker ++ (lit " " ++ (Text.decimal answer ++ lit ".")))) =
      front.dropWhile Text.isSpace ++ (answerMarker ++ (lit " " ++ (Text.decimal answer ++ lit "."))) := by
    rw [strip, Text.lstrip, List.dropWhile_append, kept, if_neg (by decide)]
    simp only [← List.append_assoc]
    exact Text.rstrip_of_last _ (by decide)
  rw [stripped]
  refine ⟨by simp [lit], ?_⟩
  exact ((answer_marked _ answer colon_sensitive (forall₂_sensitive.mpr rfl)).findall heads_sensitive).1

theorem told_solid {item : Record} (told : Told mod item) : Solid item := by
  obtain ⟨-, data, generated, problem, question, solution⟩ := told
  obtain ⟨sentences, -, shape, -⟩ := generated.sentences
  refine ⟨?_, ?_, (strip_solution solution).1⟩
  · rw [problem, shape]
    exact Text.strip_ne_nil (c := '.') (by simp [lit]) (by decide)
  · rw [question, generated.question]
    exact Text.strip_ne_nil (c := '?') (by simp [lit]) (by decide)

theorem slug_flat {mode : Text} (flat : '/' ∉ mode) : (slug mode).text = mode := by
  refine (List.map_congr_left fun c member => ?_).trans (List.map_id mode)
  rw [if_neg (by rintro rfl; exact flat member)]
  rfl

theorem told_answer {item : Record} (args : Args) (positive : 1 ≤ mod) (told : Told mod item) : ∃ answer,
    solvePrompt mod (exportOf args item).instruction = some answer ∧
      extractGroundTruth (exportOf args item).output = some (Text.decimal answer) := by
  obtain ⟨answer, solved, found, -⟩ := told.solved positive
  obtain ⟨-, data, generated, problem, question, solution⟩ := told
  obtain ⟨-, -, -, -, whole⟩ := generated.prompt problem question
  refine ⟨answer, ?_, ?_⟩
  · rw [exportOf, ← whole, solved]
  · exact (strip_solution solution).2.trans ((extractGroundTruth_solution solution).symm.trans found)

theorem mem_exported {args : Args} {items : List Record} {mode : Text} {rec : SftRecord}
    (member : rec ∈ exported args items mode) : ∃ item ∈ items, item.mode = mode ∧ rec = exportOf args item := by
  have among : rec ∈ (items.filter fun item => decide (item.mode = mode) && !filteredOut args (some mode)).map
      (exportOf args) := by
    rw [exported, capped] at member
    split at member
    · exact member
    · exact List.mem_of_mem_take member
  obtain ⟨item, chosen, rfl⟩ := List.mem_map.mp among
  obtain ⟨known, passed⟩ := List.mem_filter.mp chosen
  exact ⟨item, known, of_decide_eq_true (Bool.and_eq_true_iff.mp passed).1, rfl⟩

end Workers

-- From the workers' files every record goes to the file of its mode and is read back from it, and what each pair
-- asks is answered by what it shows.
theorem workers_exported {mod : Int} (positive : 1 ≤ mod) {writes : List Write} (ran : Ran mod writes) (args : Args)
    (overwrite : args.overwrite = true) (flatOutput : Bool) (name : Text) (info : Dict Text Value)
    (overlaid : Text → List Text → Text) (before : Path → Option Text)
    (found : findInputFiles (rootOf flatOutput name (diskAfter writes)) args.opMin args.opMax ≠ []) :
    ∃ run, main decode args (rootOf flatOutput name (diskAfter writes)) info = .ok run ∧ run.scan.skipped = 0 ∧
      (∀ path, path ∈ run.opened ↔ ∃ mode, exported args (readItems writes args.opMin args.opMax) mode ≠ [] ∧
        path = dataPath args.outputDir (slug mode)) ∧
      ∀ mode, exported args (readItems writes args.opMin args.opMax) mode ≠ [] → ∃ text,
        run.file overlaid args before (dataPath args.outputDir (slug mode)) = some text ∧
        Jsonl.read text = some ((exported args (readItems writes args.opMin args.opMax) mode).map
          fun rec => .object (sftFields rec)) ∧
        ∀ rec ∈ exported args (readItems writes args.opMin args.opMax) mode, ∃ answer,
          solvePrompt mod rec.instruction = some answer ∧
            extractGroundTruth rec.output = some (Text.decimal answer) := by
  have told := @Ran.items mod writes ran args.opMin args.opMax
  have solid : ∀ item ∈ readItems writes args.opMin args.opMax, Solid item := fun item member =>
    told_solid (told item member)
  have lists := inputLines_lists writes args flatOutput name
  have same := @Lists.written args _ _ lists solid
  have named {obj : Obj} {line : Text} (inside : line ∈ inputLines args (rootOf flatOutput name (diskAfter writes)))
      (is : candidate decode args line = some obj) : obj.modeOf ≠ none := by
    obtain ⟨item, -, rfl⟩ := lists.candidate inside is
    exact Option.some_ne_none _
  obtain ⟨scan, scanning⟩ := (scanFiles_ok_iff _).mpr (written_eq_nil.mpr (.inr fun line member =>
    recordFor_unnamed fun obj is => named member is))
  have inv : Scanned decode args (inputLines args (rootOf flatOutput name (diskAfter writes))) scan :=
    scanFiles_scanned scanning
  have keys : none ∉ scan.counts.keys := by
    rw [inv.keys]
    rintro ⟨line, member, obj, is, null, -⟩
    exact named member is null
  obtain ⟨run, returned, rfl⟩ := @main_ok decode args _ info _ found scanning keys
  have apart : Apart decode args (inputLines args (rootOf flatOutput name (diskAfter writes))) := by
    have flat {mode : Text} (filled : exported args (readItems writes args.opMin args.opMax) mode ≠ []) :
        '/' ∉ mode := by
      obtain ⟨rec, member⟩ := List.exists_mem_of_ne_nil _ filled
      obtain ⟨item, known, rfl, -⟩ := mem_exported member
      exact (told item known).1
    intro first second one two slugs
    rw [same] at one two
    rw [← slug_flat (flat one), ← slug_flat (flat two), slugs]
  refine ⟨run, returned, ?_, fun path => ?_, fun mode filled => ?_⟩
  · rw [inv.skipped, lists.undecodable, lists.blanks solid]
  · rw [inv.opened]
    simp only [same]
  · have file := @Scanned.file _ _ _ _ overlaid before mode inv apart (by rwa [same])
    rw [if_pos overwrite, List.nil_append, same] at file
    refine ⟨_, file, read_content _, fun rec member => ?_⟩
    obtain ⟨item, known, -, rfl⟩ := mem_exported member
    exact told_answer args positive (told item known)

def leakExport : Args := { pairArgs with opMin := 2, opMax := 2 }

theorem workers_exported_leak : ∃ block run, Ran 23 [⟨leakArgs, 0, [block]⟩] ∧
    main decode leakExport (rootOf true (lit "out") (diskAfter [⟨leakArgs, 0, [block]⟩])) .empty = .ok run ∧
      run.scan.skipped = 0 := by
  obtain ⟨block, -, returned⟩ := leakArgs_returns
  have ran : Ran 23 [⟨leakArgs, 0, [block]⟩] :=
    .run .none (fun _ => 0) leakArgs 1 0 1 [[block]] rfl (by decide) rfl returned
  have jsonl : lit ".jsonl" <:+ lit "simple_op2_force_True_0.jsonl" := by decide
  have disk : diskAfter [⟨leakArgs, 0, [block]⟩] = [((2, lit "simple_op2_force_True_0.jsonl"), itemsText block)] := rfl
  have found : findInputFiles (rootOf true (lit "out") (diskAfter [⟨leakArgs, 0, [block]⟩])) 2 2 ≠ [] := by
    simp [disk, findInputFiles, rootOf, opDir, inDir, inputFile, globJsonl, jsonl]
  obtain ⟨run, made, skipped, -⟩ := workers_exported (by decide) ran leakExport rfl true (lit "out") .empty
    (fun _ _ => []) (fun _ => none) found
  exact ⟨block, run, ran, made, skipped⟩

end CotCompression.Sft
