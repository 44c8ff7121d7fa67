import CotCompression.Export.Rlvr
import CotCompression.Shared.Jsonl

set_option autoImplicit false

namespace CotCompression

open Text (lit strip)
open Json (Value)
open Jsonl (solidLines fileLines rows)

abbrev Disk := List ((Int × Text) × Text)

def itemFields (item : Record) : List (Text × Value) :=
  [(lit "problem", .string item.problem), (lit "question", .string item.question),
    (lit "solution", .string item.solution), (lit "op", .int item.op), (lit "id", .int item.id),
    (lit "template", .string item.template), (lit "mode", .string item.mode),
    (lit "length", .string item.length), (lit "d", .int item.d)]

-- "\n".join(json.dumps(item) for item in items[idx]) + "\n"
def itemsText (items : List Record) : Text := Text.join ['\n'] (rows true (items.map itemFields)) ++ ['\n']

def writeTexts (args : Args) (identifier : Int) (items : List (List Record)) (disk : Disk) : Disk :=
  (args.listoperations.zip items).foldl
    (fun disk (op, records) =>
      appendTo (· ++ ·) disk (op, fileName op args.force identifier) (itemsText records)) disk

structure Write where
  args : Args
  identifier : Int
  items : List (List Record)

def filesAfter (writes : List Write) : Files :=
  writes.foldl (fun files write => writeItems write.args write.identifier write.items files) []

def diskAfter (writes : List Write) : Disk :=
  writes.foldl (fun disk write => writeTexts write.args write.identifier write.items disk) []

inductive ReadError where
  | jsonDecodeError
  | keyError (key : Text)
  | typeError
  | attributeError
  deriving DecidableEq

-- item[key]
def getItem (item : Value) (key : Text) : Except ReadError Value :=
  match item with
  | .object fields =>
    match fields.lookup key with
    | some value => .ok value
    | none => .error (.keyError key)
  | _ => .error .typeError

-- item.get(key)
def getOrNone (item : Value) (key : Text) : Except ReadError Value :=
  match item with
  | .object fields => .ok ((fields.lookup key).getD .null)
  | _ => .error .attributeError

-- value.strip()
def strippedOf : Value → Except ReadError Text
  | .string text => .ok (strip text)
  | _ => .error .attributeError

def groundTruthOf : Value → Except ReadError (Option Text)
  | .string solution => .ok (extractGroundTruth solution)
  | _ => .error .typeError

structure RlvrRow where
  dataSource : Text
  role : Text
  content : Text
  style : Text
  groundTruth : Text
  index : Nat
  op : Value
  mode : Value

def RlvrRecord.row (rec : RlvrRecord) : RlvrRow where
  dataSource := rec.dataSource
  role := rec.role
  content := rec.content
  style := rec.style
  groundTruth := rec.groundTruth
  index := rec.index
  op := .int rec.op
  mode := .string rec.mode

-- to_record
def toRow (item : Value) (idx : Nat) (dataSource : Text) : Except ReadError (Option RlvrRow) := do
  match ← groundTruthOf (← getItem item (lit "solution")) with
  | none => return none
  | some gt =>
    let problem ← strippedOf (← getItem item (lit "problem"))
    let question ← strippedOf (← getItem item (lit "question"))
    return some {
      dataSource
      role := lit "user"
      content := strip (problem ++ lit " " ++ question)
      style := lit "rule"
      groundTruth := gt
      index := idx
      op := ← getOrNone item (lit "op")
      mode := ← getOrNone item (lit "mode") }

def collectItem (dataSource : Text) (records : List RlvrRow) (line : Text) : Except ReadError (List RlvrRow) :=
  match Json.loads line with
  | none => .error .jsonDecodeError
  | some item => do
    match ← toRow item records.length dataSource with
    | none => return records
    | some rec => return records ++ [rec]

-- The body of iter_jsonl, with that of the loop over its items.
def collectLine (dataSource : Text) (records : List RlvrRow) (line : Text) : Except ReadError (List RlvrRow) :=
  if strip line = [] then .ok records else collectItem dataSource records (strip line)

def prepareTexts (disk : Disk) (opMin opMax maxFilesPerOp : Int) (dataSource : Text) :
    Except ReadError (Option (List RlvrRow)) := do
  let paths := collectIn disk opMin opMax maxFilesPerOp
  if paths = [] then return none
  else return some (← (paths.flatMap fileLines).foldlM (collectLine dataSource) [])

section Mapped

variable {α β : Type}

theorem appendTo_map {combine : α → α → α} {combine' : β → β → β} (f : α → β)
    (each : ∀ a b, f (combine a b) = combine' (f a) (f b)) (files : List ((Int × Text) × α)) (path : Int × Text)
    (data : α) : (appendTo combine files path data).map (Prod.map id f) =
      appendTo combine' (files.map (Prod.map id f)) path (f data) := by
  have keys : (files.map (Prod.map id f)).map Prod.fst = files.map Prod.fst := by simp [Function.comp_def]
  rw [appendTo, appendTo, keys]
  split
  · rw [List.map_map, List.map_map]
    refine List.map_congr_left fun entry _ => ?_
    obtain ⟨other, before⟩ := entry
    by_cases same : other = path <;> simp [same, each]
  · simp

theorem globIn_map (f : α → β) (files : List ((Int × Text) × α)) (op : Int) :
    globIn (files.map (Prod.map id f)) op = (globIn files op).map f := by
  rw [globIn, globIn]
  have named : (files.map (Prod.map id f)).filterMap (fun file => if file.1.1 = op ∧ lit ".jsonl" <:+ file.1.2 ∧
        file.1.2.head? ≠ some '.' then some (file.1.2, file.2) else none) =
      (files.filterMap fun file => if file.1.1 = op ∧ lit ".jsonl" <:+ file.1.2 ∧ file.1.2.head? ≠ some '.'
        then some (file.1.2, file.2) else none).map (Prod.map id f) := by
    rw [List.filterMap_map, List.map_filterMap]
    refine List.filterMap_congr fun entry _ => ?_
    obtain ⟨path, data⟩ := entry
    by_cases found : path.1 = op ∧ lit ".jsonl" <:+ path.2 ∧ path.2.head? ≠ some '.' <;> simp [found]
  simp only [named]
  rw [← List.map_mergeSort (r := fun first second => decide (first.1 ≤ second.1)) (by simp)]
  simp [Function.comp_def]

theorem sliceTo_map (f : α → β) (xs : List α) (stop : Int) : sliceTo (xs.map f) stop = (sliceTo xs stop).map f := by
  simp [sliceTo, sliceIndex, List.map_take]

theorem collectIn_map (f : α → β) (files : List ((Int × Text) × α)) (opMin opMax maxFilesPerOp : Int) :
    collectIn (files.map (Prod.map id f)) opMin opMax maxFilesPerOp =
      (collectIn files opMin opMax maxFilesPerOp).map f := by
  rw [collectIn, collectIn, List.map_flatMap]
  simp only [globIn_map, sliceTo_map]

theorem collectIn_subset {files : List ((Int × Text) × α)} {opMin opMax maxFilesPerOp : Int} {data : α}
    (member : data ∈ collectIn files opMin opMax maxFilesPerOp) : ∃ path, (path, data) ∈ files := by
  obtain ⟨index, -, member⟩ := List.mem_flatMap.mp member
  have found := (List.take_subset _ _ member : data ∈ globIn files (opMin + index))
  obtain ⟨entry, sorted, rfl⟩ := List.mem_map.mp found
  obtain ⟨⟨path, data⟩, inside, picked⟩ := List.mem_filterMap.mp (List.mem_mergeSort.mp sorted)
  simp only at picked
  split at picked
  · obtain rfl := Option.some.inj picked
    exact ⟨path, inside⟩
  · cases picked

end Mapped

section Joint

abbrev Joint := List Record × Text

def joinJoint (before added : Joint) : Joint := (before.1 ++ added.1, before.2 ++ added.2)

def Write.entries (write : Write) : List ((Int × Text) × Joint) :=
  (write.args.listoperations.zip write.items).map fun (op, records) =>
    ((op, fileName op write.args.force write.identifier), (records, itemsText records))

def jointAfter (writes : List Write) : List ((Int × Text) × Joint) :=
  (writes.flatMap Write.entries).foldl (fun files (path, data) => appendTo joinJoint files path data) []

theorem jointAfter_map {α : Type} {combine : α → α → α} (f : Joint → α)
    (each : ∀ a b, f (joinJoint a b) = combine (f a) (f b)) (writes : List Write) :
    (jointAfter writes).map (Prod.map id f) = writes.foldl (fun files write => write.entries.foldl
      (fun files (path, data) => appendTo combine files path (f data)) files) [] := by
  have general (entries : List ((Int × Text) × Joint)) (files : List ((Int × Text) × Joint)) :
      (entries.foldl (fun files (path, data) => appendTo joinJoint files path data) files).map (Prod.map id f) =
        entries.foldl (fun files (path, data) => appendTo combine files path (f data)) (files.map (Prod.map id f)) := by
    induction entries generalizing files with
    | nil => rfl
    | cons entry entries ih => rw [List.foldl_cons, List.foldl_cons, ih, appendTo_map f each]
  rw [jointAfter, general, List.foldl_flatMap]
  rfl

theorem filesAfter_eq (writes : List Write) : filesAfter writes = (jointAfter writes).map (Prod.map id Prod.fst) := by
  rw [@jointAfter_map _ (· ++ ·) Prod.fst (fun _ _ => rfl), filesAfter]
  simp only [writeItems, Files.append, Write.entries, List.foldl_map]

theorem diskAfter_eq (writes : List Write) : diskAfter writes = (jointAfter writes).map (Prod.map id Prod.snd) := by
  rw [@jointAfter_map _ (· ++ ·) Prod.snd (fun _ _ => rfl), diskAfter]
  simp only [Write.entries, List.foldl_map]
  rfl

def Reads (text : Text) (records : List Record) : Prop :=
  ∀ rest, solidLines (text ++ rest) = rows true (records.map itemFields) ++ solidLines rest

theorem itemFields_exact (item : Record) : (Value.object (itemFields item)).Exact := by
  have keys : ([lit "problem", lit "question", lit "solution", lit "op", lit "id", lit "template", lit "mode",
      lit "length", lit "d"] : List Text).Nodup := by decide
  exact ⟨keys, trivial, trivial, trivial, trivial, trivial, trivial, trivial, trivial, trivial, trivial⟩

theorem itemFields_each (items : List Record) : ∀ fields ∈ items.map itemFields, (Value.object fields).Exact := by
  intro fields member
  obtain ⟨item, -, rfl⟩ := List.mem_map.mp member
  exact itemFields_exact item

theorem reads_itemsText (items : List Record) : Reads (itemsText items) items := by
  intro rest
  rw [itemsText, Jsonl.join_newline]
  by_cases none : items = []
  · subst none
    exact Jsonl.solidLines_blank rest
  · rw [if_neg (by simpa [rows] using none)]
    exact Jsonl.solidLines_rows (itemFields_each items) rest

theorem Reads.append {text added : Text} {records more : List Record} (first : Reads text records)
    (second : Reads added more) : Reads (text ++ added) (records ++ more) := by
  intro rest
  rw [List.append_assoc, first, second, List.map_append, rows, rows, rows, List.map_append, List.append_assoc]

theorem Reads.lines {text : Text} {records : List Record} (reads : Reads text records) :
    solidLines text = rows true (records.map itemFields) := by
  have whole := reads []
  rwa [List.append_nil, show solidLines [] = [] from rfl, List.append_nil] at whole

theorem appendTo_forall {α : Type} {p : α → Prop} {combine : α → α → α} (combines : ∀ a b, p a → p b → p (combine a b))
    {files : List ((Int × Text) × α)} {path : Int × Text} {data : α} (each : ∀ entry ∈ files, p entry.2)
    (new : p data) : ∀ entry ∈ appendTo combine files path data, p entry.2 := by
  rw [appendTo]
  split
  · intro entry member
    obtain ⟨⟨other, before⟩, inside, rfl⟩ := List.mem_map.mp member
    have old := each _ inside
    by_cases same : other = path
    · simpa [same] using combines _ _ old new
    · simpa [same] using old
  · intro entry member
    rcases List.mem_append.mp member with member | member
    · exact each entry member
    · obtain rfl := List.mem_singleton.mp member
      exact new

theorem solidLines_texts {joints : List Joint} (each : ∀ data ∈ joints, Reads data.2 data.1) :
    (((joints.map Prod.snd).flatMap fileLines).map strip).filter (fun line => decide (line ≠ [])) =
      rows true ((joints.map Prod.fst).flatten.map itemFields) := by
  induction joints with
  | nil => rfl
  | cons data joints ih =>
    obtain ⟨first, each⟩ := List.forall_mem_cons.mp each
    have here := first.lines
    rw [solidLines] at here
    rw [List.map_cons, List.flatMap_cons, List.map_append, List.filter_append, here, ih each, List.map_cons,
      List.flatten_cons, List.map_append, rows, rows, rows, List.map_append]

theorem jointAfter_forall {p : Joint → Prop} (combines : ∀ a b, p a → p b → p (joinJoint a b)) {writes : List Write}
    (new : ∀ write ∈ writes, ∀ entry ∈ write.entries, p entry.2) : ∀ entry ∈ jointAfter writes, p entry.2 := by
  have general (entries files : List ((Int × Text) × Joint)) (new : ∀ entry ∈ entries, p entry.2)
      (each : ∀ entry ∈ files, p entry.2) :
      ∀ entry ∈ entries.foldl (fun files (path, data) => appendTo joinJoint files path data) files, p entry.2 := by
    induction entries generalizing files with
    | nil => exact each
    | cons entry entries ih =>
      obtain ⟨first, new⟩ := List.forall_mem_cons.mp new
      rw [List.foldl_cons]
      exact ih _ new (appendTo_forall combines each first)
  refine general _ _ (fun entry member => ?_) (fun entry member => absurd member List.not_mem_nil)
  obtain ⟨write, inside, member⟩ := List.mem_flatMap.mp member
  exact new write inside entry member

theorem jointAfter_reads (writes : List Write) : ∀ entry ∈ jointAfter writes, Reads entry.2.2 entry.2.1 := by
  refine jointAfter_forall (p := fun data => Reads data.2 data.1) (fun _ _ left right => left.append right) ?_
  intro write _ entry member
  obtain ⟨⟨op, records⟩, -, rfl⟩ := List.mem_map.mp member
  exact reads_itemsText records

end Joint

section Decoded

theorem toRow_itemFields (item : Record) (idx : Nat) (dataSource : Text) :
    toRow (.object (itemFields item)) idx dataSource = .ok ((toRecord item idx dataSource).map RlvrRecord.row) := by
  have solution : getItem (.object (itemFields item)) (lit "solution") = .ok (.string item.solution) := rfl
  have problem : getItem (.object (itemFields item)) (lit "problem") = .ok (.string item.problem) := rfl
  have question : getItem (.object (itemFields item)) (lit "question") = .ok (.string item.question) := rfl
  rw [toRow, toRecord]
  simp only [solution, ok_bind, groundTruthOf]
  cases extractGroundTruth item.solution with
  | none => rfl
  | some gt =>
    simp only [problem, question, ok_bind, strippedOf]
    rfl

theorem collectItem_row (dataSource : Text) (records : List RlvrRecord) (item : Record) :
    collectItem dataSource (records.map RlvrRecord.row) (Json.dumps true (.object (itemFields item))) =
      .ok ((collectRecords dataSource [item] records).map RlvrRecord.row) := by
  rw [collectItem, Json.loads_dumps _ (itemFields_exact item)]
  simp only [toRow_itemFields, List.length_map, ok_bind, collectRecords]
  cases toRecord item records.length dataSource with
  | none => rfl
  | some rec => simp; rfl

theorem collectRecords_cons (dataSource : Text) (item : Record) (items : List Record) (records : List RlvrRecord) :
    collectRecords dataSource (item :: items) records =
      collectRecords dataSource items (collectRecords dataSource [item] records) := by
  simp only [collectRecords]
  cases toRecord item records.length dataSource <;> rfl

theorem collectRows (dataSource : Text) (items : List Record) (records : List RlvrRecord) :
    (rows true (items.map itemFields)).foldlM (collectItem dataSource) (records.map RlvrRecord.row) =
      .ok ((collectRecords dataSource items records).map RlvrRecord.row) := by
  induction items generalizing records with
  | nil => rfl
  | cons item items ih =>
    rw [rows, List.map_cons, List.map_cons, List.foldlM_cons, collectItem_row, ok_bind, ← rows, ih,
      ← collectRecords_cons]

theorem collectLine_solid (dataSource : Text) (lines : List Text) (records : List RlvrRow) :
    lines.foldlM (collectLine dataSource) records =
      ((lines.map strip).filter fun line => decide (line ≠ [])).foldlM (collectItem dataSource) records := by
  induction lines generalizing records with
  | nil => rfl
  | cons line lines ih =>
    by_cases blank : strip line = []
    · rw [List.foldlM_cons, collectLine, if_pos blank, ok_bind, ih, List.map_cons,
        List.filter_cons_of_neg (by simp [blank])]
    · rw [List.foldlM_cons, collectLine, if_neg blank, List.map_cons, List.filter_cons_of_pos (by simp [blank]),
        List.foldlM_cons]
      exact congrArg _ (funext fun next => ih next)

end Decoded

theorem collectFiles_eq (writes : List Write) (opMin opMax maxFilesPerOp : Int) :
    collectFiles (filesAfter writes) opMin opMax maxFilesPerOp =
      (collectIn (jointAfter writes) opMin opMax maxFilesPerOp).map Prod.fst := by
  rw [filesAfter_eq, ← collectIn_map]
  rfl

theorem prepareTexts_refines (writes : List Write) (opMin opMax maxFilesPerOp : Int) (dataSource : Text) :
    prepareTexts (diskAfter writes) opMin opMax maxFilesPerOp dataSource =
      .ok ((prepare (filesAfter writes) opMin opMax maxFilesPerOp dataSource).map (List.map RlvrRecord.row)) := by
  have reads : ∀ data ∈ collectIn (jointAfter writes) opMin opMax maxFilesPerOp, Reads data.2 data.1 := by
    intro data member
    obtain ⟨path, inside⟩ := collectIn_subset member
    exact jointAfter_reads writes _ inside
  rw [prepareTexts, prepare, diskAfter_eq, collectIn_map, collectFiles_eq]
  generalize collectIn (jointAfter writes) opMin opMax maxFilesPerOp = joints at reads
  by_cases none : joints = []
  · simp [none]
    rfl
  · have collected := collectRows dataSource (joints.map Prod.fst).flatten []
    rw [← solidLines_texts reads, ← collectLine_solid] at collected
    simp only [List.map_eq_nil_iff, if_neg none]
    rw [List.map_nil] at collected
    rw [collected]
    rfl

-- prepare_rlvr_data makes of the workers' texts what it makes of their records.
theorem prepareTexts_eq (writes : List Write) :
    (∀ path text, (path, text) ∈ diskAfter writes → ∃ records, (path, records) ∈ filesAfter writes ∧
      Jsonl.read text = some (records.map fun item => .object (itemFields item))) ∧
    ∀ opMin opMax maxFilesPerOp dataSource,
      prepareTexts (diskAfter writes) opMin opMax maxFilesPerOp dataSource =
        .ok ((prepare (filesAfter writes) opMin opMax maxFilesPerOp dataSource).map
          (List.map RlvrRecord.row)) := by
  refine ⟨fun path text member => ?_, fun _ _ _ _ => prepareTexts_refines writes _ _ _ _⟩
  rw [diskAfter_eq] at member
  obtain ⟨⟨path, records, text⟩, inside, same⟩ := List.mem_map.mp member
  obtain ⟨rfl, rfl⟩ := Prod.mk.inj same
  refine ⟨records, ?_, ?_⟩
  · rw [filesAfter_eq]
    exact List.mem_map.mpr ⟨_, inside, rfl⟩
  · rw [Jsonl.read, (jointAfter_reads writes _ inside).lines, Jsonl.loads_rows (itemFields_each records),
      List.map_map]
    rfl

end CotCompression
