import CotCompression.Export.SftTexts
import CotCompression.Shared.Interleaving
import CotCompression.Shared.Reordering

set_option autoImplicit false

namespace CotCompression

open Reordering (sorted_perm)
open Interleaving (Config Congruence Commutes Independent Finished Runs sequential)
open Text (lit)
open Sft (findInputFiles rootOf opDir inDir inputFile of_inDir globJsonl InputFile)

abbrev Chunk := (Int × Text) × Text

def flush (disk : Disk) (chunk : Chunk) : Disk := appendTo (· ++ ·) disk chunk.1 chunk.2

/-- Opening a file makes it, and the buffer goes out in any number of pieces. -/
inductive Flushed : List Chunk → List Chunk → Prop
  | none : Flushed [] []
  | file {texts chunks : List Chunk} (path : Int × Text) (pieces : List Text) (opened : pieces ≠ [])
      (rest : Flushed texts chunks) :
      Flushed ((path, pieces.flatten) :: texts) (pieces.map (fun piece => (path, piece)) ++ chunks)

def Write.texts (write : Write) : List Chunk :=
  (write.args.listoperations.zip write.items).map fun (op, records) =>
    ((op, fileName op write.args.force write.identifier), itemsText records)

def processWrites (args : Args) (outputs : List (List (List (List Record)))) : List (List Write) :=
  outputs.zipIdx.map fun (output, identifier) => output.map fun items => ⟨args, identifier, items⟩

def Sends (args : Args) (outputs : List (List (List (List Record)))) (threads : List (List Chunk)) : Prop :=
  List.Forall₂ Flushed ((processWrites args outputs).map (List.flatMap Write.texts)) threads

def recordsOf (args : Args) (output : List (List (List Record))) (op : Int) : List Record :=
  output.flatMap fun items =>
    ((args.listoperations.zip items).filter fun entry => decide (entry.1 = op)).flatMap Prod.snd

section Appending

variable {α : Type} {combine : α → α → α} {files other : List ((Int × Text) × α)}

theorem appendTo_perm (perm : files.Perm other) (path : Int × Text) (data : α) :
    (appendTo combine files path data).Perm (appendTo combine other path data) := by
  have keys : path ∈ files.map Prod.fst ↔ path ∈ other.map Prod.fst := (perm.map Prod.fst).mem_iff
  rw [appendTo, appendTo]
  by_cases known : path ∈ files.map Prod.fst
  · rw [if_pos known, if_pos (keys.mp known)]
    exact perm.map _
  · rw [if_neg known, if_neg fun found => known (keys.mpr found)]
    exact perm.append_right _

theorem appendTo_keys (files : List ((Int × Text) × α)) (path : Int × Text) (data : α) :
    (appendTo combine files path data).map Prod.fst =
      files.map Prod.fst ++ if path ∈ files.map Prod.fst then [] else [path] := by
  rw [appendTo]
  split
  · rw [List.map_map, List.append_nil]
    rfl
  · simp

theorem mem_appendTo_keys {path next : Int × Text} {data : α} :
    next ∈ (appendTo combine files path data).map Prod.fst ↔ next ∈ files.map Prod.fst ∨ next = path := by
  rw [appendTo_keys]
  split
  · next known =>
    rw [List.append_nil, or_iff_left_of_imp]
    rintro rfl
    exact known
  · rw [List.mem_append, List.mem_singleton]

theorem appendTo_nodup (distinct : (files.map Prod.fst).Nodup) (path : Int × Text) (data : α) :
    ((appendTo combine files path data).map Prod.fst).Nodup := by
  rw [appendTo_keys]
  split
  · rwa [List.append_nil]
  · next missing =>
    refine List.nodup_append.mpr ⟨distinct, List.nodup_singleton path, fun key known last is => ?_⟩
    rintro rfl
    obtain rfl := List.mem_singleton.mp is
    exact missing known

theorem appendTo_old {path : Int × Text} (known : path ∈ files.map Prod.fst) (data : α) :
    appendTo combine files path data =
      files.map fun entry => (entry.1, if entry.1 = path then combine entry.2 data else entry.2) := if_pos known

theorem appendTo_new {path : Int × Text} (missing : path ∉ files.map Prod.fst) (data : α) :
    appendTo combine files path data = files ++ [(path, data)] := if_neg missing

theorem appendTo_comm {first second : Int × Text} (apart : first ≠ second) (data more : α) :
    (appendTo combine (appendTo combine files first data) second more).Perm
      (appendTo combine (appendTo combine files second more) first data) := by
  have kept {path next : Int × Text} (differ : next ≠ path) (data : α) :
      next ∈ (appendTo combine files path data).map Prod.fst ↔ next ∈ files.map Prod.fst :=
    mem_appendTo_keys.trans (or_iff_left differ)
  -- One of the two files is made, behind the others.
  have swap {path next : Int × Text} (differ : next ≠ path) (data more : α) (old : path ∈ files.map Prod.fst)
      (new : next ∉ files.map Prod.fst) :
      appendTo combine (appendTo combine files path data) next more =
        appendTo combine (appendTo combine files next more) path data := by
    rw [appendTo_new (mt (kept differ data).mp new), appendTo_old ((kept differ.symm more).mpr old),
      appendTo_old old, appendTo_new new]
    simp [differ]
  by_cases left : first ∈ files.map Prod.fst <;> by_cases right : second ∈ files.map Prod.fst
  · rw [appendTo_old ((kept apart.symm data).mpr right), appendTo_old ((kept apart more).mpr left),
      appendTo_old left, appendTo_old right, List.map_map, List.map_map]
    refine .of_eq (List.map_congr_left fun entry _ => ?_)
    by_cases one : entry.1 = first
    · simp [one, apart]
    · by_cases two : entry.1 = second <;> simp [one, two, apart.symm]
  · exact .of_eq (swap apart.symm data more left right)
  · exact .of_eq (swap apart more data right left).symm
  · rw [appendTo_new (mt (kept apart.symm data).mp right), appendTo_new (mt (kept apart more).mp left),
      appendTo_new left, appendTo_new right, List.append_assoc, List.append_assoc]
    exact (List.Perm.swap _ _ _).append_left files

theorem appendTo_twice (assoc : ∀ a b c, combine (combine a b) c = combine a (combine b c)) (path : Int × Text)
    (data more : α) :
    appendTo combine (appendTo combine files path data) path more = appendTo combine files path (combine data more) := by
  rw [appendTo_old (mem_appendTo_keys.mpr (.inr rfl))]
  by_cases known : path ∈ files.map Prod.fst
  · rw [appendTo_old known, appendTo_old known, List.map_map]
    refine List.map_congr_left fun entry _ => ?_
    by_cases is : entry.1 = path <;> simp [is, assoc]
  · rw [appendTo_new known, appendTo_new known, List.map_append]
    have others : ∀ entry ∈ files, entry.1 ≠ path := by
      rintro entry member rfl
      exact known (List.mem_map_of_mem member)
    congr 1
    · refine (List.map_congr_left fun entry member => ?_).trans (List.map_id files)
      rw [if_neg (others entry member)]
      rfl
    · simp

end Appending

section Flushing

variable {disk later : Disk}

theorem flush_congruence : Congruence flush List.Perm where
  equivalence := ⟨List.Perm.refl, List.Perm.symm, List.Perm.trans⟩
  kept perm chunk := appendTo_perm perm chunk.1 chunk.2

theorem flush_commutes {first second : Chunk} (apart : first.1 ≠ second.1) : Commutes flush List.Perm first second :=
  fun _ => appendTo_comm apart _ _

theorem flush_pieces {pieces : List Text} (opened : pieces ≠ []) (path : Int × Text) (disk : Disk) :
    (pieces.map fun piece => (path, piece)).foldl flush disk = flush disk (path, pieces.flatten) := by
  induction pieces generalizing disk with
  | nil => exact absurd rfl opened
  | cons piece pieces ih =>
    by_cases last : pieces = []
    · subst last
      simp
    · rw [List.map_cons, List.foldl_cons, ih last, List.flatten_cons]
      exact appendTo_twice List.append_assoc path _ _

theorem Flushed.settles {texts chunks : List Chunk} (flushed : Flushed texts chunks) (disk : Disk) :
    chunks.foldl flush disk = texts.foldl flush disk := by
  induction flushed generalizing disk with
  | none => rfl
  | file path pieces opened rest ih => rw [List.foldl_append, flush_pieces opened, ih, List.foldl_cons]

theorem Flushed.whole (path : Int × Text) (text : Text) : Flushed [(path, text)] [(path, text)] := by
  simpa using Flushed.file path [text] (by simp) .none

theorem Flushed.opened (path : Int × Text) (text : Text) : Flushed [(path, text)] [(path, []), (path, text)] := by
  simpa using Flushed.file path [[], text] (by simp) .none

theorem Flushed.path {texts chunks : List Chunk} (flushed : Flushed texts chunks) :
    ∀ chunk ∈ chunks, chunk.1 ∈ texts.map Prod.fst := by
  induction flushed with
  | none => exact fun chunk member => absurd member List.not_mem_nil
  | file path pieces opened rest ih =>
    intro chunk member
    rcases List.mem_append.mp member with member | member
    · obtain ⟨piece, -, rfl⟩ := List.mem_map.mp member
      exact List.mem_cons_self
    · exact List.mem_cons_of_mem _ (ih chunk member)

def Extends (disk later : Disk) : Prop := ∀ path text, (path, text) ∈ disk → ∃ rest, (path, text ++ rest) ∈ later

theorem flush_extends (disk : Disk) (chunk : Chunk) : Extends disk (flush disk chunk) := by
  intro path text member
  by_cases known : chunk.1 ∈ disk.map Prod.fst
  · rw [flush, appendTo_old known]
    by_cases here : path = chunk.1
    · exact ⟨chunk.2, List.mem_map.mpr ⟨_, member, by simp [here]⟩⟩
    · exact ⟨[], List.mem_map.mpr ⟨_, member, by simp [here]⟩⟩
  · rw [flush, appendTo_new known]
    exact ⟨[], by simp [member]⟩

theorem foldl_extends (chunks : List Chunk) (disk : Disk) : Extends disk (chunks.foldl flush disk) := by
  induction chunks generalizing disk with
  | nil => exact fun path text member => ⟨[], by rwa [List.append_nil]⟩
  | cons chunk chunks ih =>
    intro path text member
    obtain ⟨front, first⟩ := flush_extends disk chunk path text member
    obtain ⟨back, second⟩ := ih (flush disk chunk) path _ first
    exact ⟨front ++ back, by rwa [← List.append_assoc]⟩

end Flushing

section Names

theorem fileName_injective {op identifier other : Int} {force : Bool}
    (same : fileName op force identifier = fileName op force other) : identifier = other := by
  simp only [fileName, List.append_assoc, List.append_cancel_left_eq] at same
  rw [← Text.intOf_decimal identifier, List.append_cancel_right same, Text.intOf_decimal]

theorem texts_path {write : Write} {path : Int × Text} (member : path ∈ write.texts.map Prod.fst) :
    path.2 = fileName path.1 write.args.force write.identifier := by
  obtain ⟨chunk, inside, rfl⟩ := List.mem_map.mp member
  obtain ⟨⟨op, records⟩, -, rfl⟩ := List.mem_map.mp inside
  rfl

variable {args : Args} {outputs : List (List (List (List Record)))} {threads : List (List Chunk)}

theorem processWrites_identifier {index : Nat} (within : index < (processWrites args outputs).length) :
    ∀ write ∈ (processWrites args outputs)[index], write.args = args ∧ write.identifier = index := by
  intro write member
  simp only [processWrites, List.getElem_map, List.getElem_zipIdx, Nat.zero_add] at member
  obtain ⟨items, -, rfl⟩ := List.mem_map.mp member
  exact ⟨rfl, rfl⟩

theorem Sends.path (sends : Sends args outputs threads) {index : Nat} (within : index < threads.length) :
    ∀ chunk ∈ threads[index], chunk.1.2 = fileName chunk.1.1 args.force index := by
  intro chunk member
  have size := sends.length_eq
  rw [List.length_map] at size
  have flushed := sends.get (by rw [List.length_map]; omega) within
  obtain ⟨text, inside, named⟩ := List.mem_map.mp (flushed.path chunk member)
  simp only [List.get_eq_getElem, List.getElem_map] at inside
  obtain ⟨write, known, sent⟩ := List.mem_flatMap.mp inside
  obtain ⟨rfl, place⟩ := processWrites_identifier (by omega) write known
  rw [← place, ← named]
  exact texts_path (List.mem_map_of_mem sent)

theorem Sends.independent (sends : Sends args outputs threads) : Independent flush List.Perm threads := by
  refine List.pairwise_iff_getElem.mpr fun index next within inside before first one second two => ?_
  refine flush_commutes fun same => ?_
  have left := sends.path within first one
  rw [same, sends.path inside second two] at left
  have equal := fileName_injective left
  omega

theorem diskAfter_texts (writes : List Write) : diskAfter writes = (writes.flatMap Write.texts).foldl flush [] := by
  rw [diskAfter, List.foldl_flatMap]
  simp only [Write.texts, List.foldl_map]
  rfl

theorem Sends.in_order (sends : Sends args outputs threads) :
    sequential flush (threads, []) = diskAfter (processWrites args outputs).flatten := by
  have settle {texts threads : List (List Chunk)} (each : List.Forall₂ Flushed texts threads) (disk : Disk) :
      threads.flatten.foldl flush disk = texts.flatten.foldl flush disk := by
    induction each generalizing disk with
    | nil => rfl
    | cons flushed _ ih =>
      rw [List.flatten_cons, List.foldl_append, flushed.settles, ih, List.flatten_cons, List.foldl_append]
  rw [Interleaving.sequential, settle sends, diskAfter_texts, ← List.flatMap_def, ← List.flatMap_id,
    List.flatMap_assoc]
  rfl

end Names

section Reading

variable {disk other : Disk}

theorem picked_nodup {β : Type} {key : β → Text} {pick : Chunk → Option β} {op : Int}
    (picks : ∀ chunk picked, pick chunk = some picked → chunk.1 = (op, key picked))
    (distinct : (disk.map Prod.fst).Nodup) : ((disk.filterMap pick).map key).Nodup := by
  refine List.pairwise_map.mpr (List.Pairwise.filterMap pick ?_ (List.pairwise_map.mp distinct))
  intro first second apart one left two right same
  rw [picks _ _ left, picks _ _ right, same] at apart
  exact apart rfl

theorem globIn_perm (perm : disk.Perm other) (distinct : (disk.map Prod.fst).Nodup) (op : Int) :
    globIn disk op = globIn other op := by
  rw [globIn, globIn]
  refine congrArg _ (sorted_perm Prod.fst (perm.filterMap _) (@picked_nodup disk _ Prod.fst _ op ?_ distinct))
  rintro ⟨path, text⟩ picked is
  simp only at is
  split at is
  · next here =>
    obtain rfl := Option.some.inj is
    rw [← here.1]
  · cases is

theorem prepareTexts_perm (perm : disk.Perm other) (distinct : (disk.map Prod.fst).Nodup)
    (opMin opMax maxFilesPerOp : Int) (dataSource : Text) :
    prepareTexts disk opMin opMax maxFilesPerOp dataSource =
      prepareTexts other opMin opMax maxFilesPerOp dataSource := by
  have same : collectIn disk opMin opMax maxFilesPerOp = collectIn other opMin opMax maxFilesPerOp := by
    simp only [collectIn, globIn_perm perm distinct]
  rw [prepareTexts, prepareTexts, same]

theorem globJsonl_perm {files others : List InputFile} (perm : files.Perm others)
    (distinct : (files.map InputFile.name).Nodup) : globJsonl (some files) = globJsonl (some others) :=
  sorted_perm InputFile.name (perm.filter _) (distinct.sublist (List.filter_sublist.map _))

theorem opDir_perm (perm : disk.Perm other) (distinct : (disk.map Prod.fst).Nodup) (op : Int) :
    globJsonl (opDir disk op) = globJsonl (opDir other op) := by
  have files := perm.filterMap (inDir op inputFile)
  rw [opDir, opDir]
  by_cases nothing : disk.filterMap (inDir op inputFile) = []
  · rw [if_pos nothing, if_pos (by rw [nothing] at files; exact files.nil_eq.symm)]
  · rw [if_neg nothing, if_neg fun empty => nothing (by rw [empty] at files; exact files.eq_nil)]
    refine globJsonl_perm files (@picked_nodup disk _ InputFile.name _ op ?_ distinct)
    intro entry picked is
    obtain ⟨here, rfl⟩ := of_inDir is
    rw [inputFile, ← here]

theorem findInputFiles_perm (perm : disk.Perm other) (distinct : (disk.map Prod.fst).Nodup) (flatOutput : Bool)
    (name : Text) (opMin opMax : Int) :
    findInputFiles (rootOf flatOutput name disk) opMin opMax =
      findInputFiles (rootOf flatOutput name other) opMin opMax := by
  have each := opDir_perm perm distinct
  cases flatOutput <;> simp [findInputFiles, rootOf, each]

end Reading

section Content

variable {args : Args} {outputs : List (List (List (List Record)))} {output : List (List (List Record))}

theorem joint_keys (entries : List ((Int × Text) × Joint)) (path : Int × Text) :
    path ∈ (entries.foldl (fun files entry => appendTo joinJoint files entry.1 entry.2) []).map Prod.fst ↔
      path ∈ entries.map Prod.fst := by
  induction entries using List.reverseRecOn with
  | nil => rfl
  | append_singleton entries entry ih =>
    rw [List.foldl_append, List.foldl_cons, List.foldl_nil, mem_appendTo_keys, ih]
    simp

theorem joint_records (entries : List ((Int × Text) × Joint)) :
    ∀ file ∈ entries.foldl (fun files entry => appendTo joinJoint files entry.1 entry.2) [],
      file.2.1 = (entries.filter fun entry => decide (entry.1 = file.1)).flatMap fun entry => entry.2.1 := by
  induction entries using List.reverseRecOn with
  | nil => exact fun file member => absurd member List.not_mem_nil
  | append_singleton entries entry ih =>
    rw [List.foldl_append, List.foldl_cons, List.foldl_nil]
    intro file member
    rw [List.filter_append, List.flatMap_append]
    by_cases known : entry.1 ∈
        (entries.foldl (fun files entry => appendTo joinJoint files entry.1 entry.2) []).map Prod.fst
    · rw [appendTo_old known] at member
      obtain ⟨old, inside, rfl⟩ := List.mem_map.mp member
      by_cases here : old.1 = entry.1
      · have before := ih old inside
        rw [here] at before
        simp [here, joinJoint, before]
      · simp [here, Ne.symm here, ← ih old inside]
    · rw [appendTo_new known] at member
      rcases List.mem_append.mp member with inside | last
      · have other : entry.1 ≠ file.1 := fun same => known (same ▸ List.mem_map_of_mem inside)
        simp [other, ← ih file inside]
      · obtain rfl := List.mem_singleton.mp last
        have first : (entries.filter fun other => decide (other.1 = entry.1)) = [] := by
          refine List.filter_eq_nil_iff.mpr fun other among => ?_
          rw [decide_eq_true_eq]
          exact fun same => known ((joint_keys _ _).mpr (same ▸ List.mem_map_of_mem among))
        simp [first]

theorem fileName_iff {op other identifier index : Int} {force : Bool} :
    ((other, fileName other force index) : Int × Text) = (op, fileName op force identifier) ↔
      other = op ∧ index = identifier := by
  constructor
  · intro same
    obtain ⟨rfl, name⟩ := Prod.mk.inj same
    exact ⟨rfl, fileName_injective name⟩
  · rintro ⟨rfl, rfl⟩
    rfl

theorem process_records (args : Args) (output : List (List (List Record))) (op identifier index : Int) :
    ((((output.map fun items => (⟨args, index, items⟩ : Write)).flatMap Write.entries).filter fun entry =>
      decide (entry.1 = (op, fileName op args.force identifier))).flatMap fun entry => entry.2.1) =
        if index = identifier then recordsOf args output op else [] := by
  have one (items : List (List Record)) :
      (((⟨args, index, items⟩ : Write).entries.filter fun entry =>
        decide (entry.1 = (op, fileName op args.force identifier))).flatMap fun entry => entry.2.1) =
          if index = identifier then
            ((args.listoperations.zip items).filter fun entry => decide (entry.1 = op)).flatMap Prod.snd
          else [] := by
    rw [Write.entries, List.filter_map, List.flatMap_map]
    by_cases here : index = identifier
    · rw [if_pos here]
      refine congrArg _ (List.filter_congr fun entry _ => ?_)
      simp only [Function.comp_apply, fileName_iff, here, and_true]
    · rw [if_neg here, List.filter_eq_nil_iff.mpr]
      · rfl
      · intro entry _
        simp only [Function.comp_apply, fileName_iff, here, and_false, decide_false, Bool.false_eq_true,
          not_false_eq_true]
  induction output with
  | nil => simp [recordsOf]
  | cons items output ih =>
    rw [List.map_cons, List.flatMap_cons, List.filter_append, List.flatMap_append, ih, one]
    split
    · rw [recordsOf, recordsOf, List.flatMap_cons]
    · rfl

theorem outputs_records {index : Nat} (found : outputs[index]? = some output) (op : Int) :
    ((((processWrites args outputs).flatten.flatMap Write.entries).filter fun entry =>
      decide (entry.1 = (op, fileName op args.force index))).flatMap fun entry => entry.2.1) =
        recordsOf args output op := by
  have from_start (outputs : List (List (List (List Record)))) (start : Nat) :
      (((((outputs.zipIdx start).map fun (output, identifier) =>
        output.map fun items => (⟨args, identifier, items⟩ : Write)).flatten.flatMap Write.entries).filter fun entry =>
          decide (entry.1 = (op, fileName op args.force index))).flatMap fun entry => entry.2.1) =
            if start ≤ index then ((outputs[index - start]?).map fun output => recordsOf args output op).getD []
            else [] := by
    induction outputs generalizing start with
    | nil => simp
    | cons output outputs ih =>
      rw [List.zipIdx_cons, List.map_cons, List.flatten_cons, List.flatMap_append, List.filter_append,
        List.flatMap_append, process_records, ih]
      rcases Nat.lt_trichotomy start index with before | rfl | behind
      · obtain ⟨more, rfl⟩ := Nat.exists_eq_add_of_lt before
        have next : start + more + 1 - start = more + 1 := by omega
        have later : start + more + 1 - (start + 1) = more := by omega
        rw [if_neg (by omega), if_pos (by omega), if_pos (by omega), next, later, List.getElem?_cons_succ,
          List.nil_append]
      · rw [if_pos rfl, if_neg (by omega), if_pos le_rfl, Nat.sub_self, List.append_nil]
        rfl
      · rw [if_neg (by omega), if_neg (by omega), if_neg (by omega)]
        rfl
  rw [processWrites, from_start outputs 0, if_pos (Nat.zero_le _), Nat.sub_zero, found]
  rfl

end Content

section Schedules

variable {args : Args} {outputs : List (List (List (List Record)))} {threads : List (List Chunk)}
  {config : Config Disk Chunk}

theorem Sends.alike (sends : Sends args outputs threads) (runs : Runs flush (threads, []) config) :
    (diskAfter (processWrites args outputs).flatten).Perm (sequential flush config) := by
  have alike := runs.kept flush_congruence sends.independent
  rwa [sends.in_order] at alike

theorem Sends.nodup (runs : Runs flush (threads, []) config) : (config.2.map Prod.fst).Nodup :=
  @Interleaving.Runs.invariant _ _ _ _ _ (fun disk => (disk.map Prod.fst).Nodup) runs
    (fun _ chunk distinct => appendTo_nodup distinct chunk.1 chunk.2) List.nodup_nil

theorem processes_files {op : Int} {name text : Text}
    (member : ((op, name), text) ∈ diskAfter (processWrites args outputs).flatten) :
    ∃ (identifier : Nat) (output : List (List (List Record))), outputs[identifier]? = some output ∧
      name = fileName op args.force identifier ∧
      Jsonl.read text = some ((recordsOf args output op).map fun item => .object (itemFields item)) := by
  rw [diskAfter_eq] at member
  obtain ⟨⟨path, records, text⟩, inside, same⟩ := List.mem_map.mp member
  obtain ⟨rfl, rfl⟩ := Prod.mk.inj same
  have key : ((op, name) : Int × Text) ∈
      ((processWrites args outputs).flatten.flatMap Write.entries).map Prod.fst :=
    (joint_keys _ _).mp (List.mem_map_of_mem inside)
  obtain ⟨entry, made, is⟩ := List.mem_map.mp key
  obtain ⟨write, known, made⟩ := List.mem_flatMap.mp made
  obtain ⟨writes, among, known⟩ := List.mem_flatten.mp known
  obtain ⟨⟨output, identifier⟩, place, rfl⟩ := List.mem_map.mp among
  obtain ⟨items, -, rfl⟩ := List.mem_map.mp known
  obtain ⟨⟨other, _⟩, -, rfl⟩ := List.mem_map.mp made
  obtain ⟨rfl, rfl⟩ := Prod.mk.inj is
  have found := List.mem_zipIdx_iff_getElem?.mp place
  refine ⟨identifier, output, found, rfl, ?_⟩
  have content := joint_records _ _ inside
  rw [outputs_records found] at content
  rw [Jsonl.read, (jointAfter_reads _ _ inside).lines, Jsonl.loads_rows (itemFields_each records), List.map_map]
  rw [show records = recordsOf args output other from content]
  rfl

theorem processes_kept {identifier : Nat} {output : List (List (List Record))} {op : Int}
    (found : outputs[identifier]? = some output) (some : recordsOf args output op ≠ []) :
    ∃ text, ((op, fileName op args.force identifier), text) ∈ diskAfter (processWrites args outputs).flatten := by
  have records := @outputs_records args outputs output identifier found op
  have key : ((op, fileName op args.force identifier) : Int × Text) ∈
      ((processWrites args outputs).flatten.flatMap Write.entries).map Prod.fst := by
    by_contra missing
    rw [List.filter_eq_nil_iff.mpr fun entry member => ?_] at records
    · exact some records.symm
    · rw [decide_eq_true_eq]
      exact fun same => missing (same ▸ List.mem_map_of_mem member)
  obtain ⟨file, inside, is⟩ := List.mem_map.mp ((joint_keys _ _).mpr key)
  rw [diskAfter_eq]
  exact ⟨file.2.2, List.mem_map.mpr ⟨file, inside, by rw [← is]; rfl⟩⟩

end Schedules

-- Whatever turns main's processes take, and in whatever pieces their buffers go out, every file ends up with one
-- worker's records for one op, and the exporters read what they read had the workers run one by one.
theorem processes_agree {args : Args} {outputs : List (List (List (List Record)))} {threads : List (List Chunk)}
    (sends : Sends args outputs threads) {config : Config Disk Chunk} (runs : Runs flush (threads, []) config) :
    Extends config.2 (diskAfter (processWrites args outputs).flatten) ∧
    (∃ last, Runs flush config last ∧ Finished last) ∧
    (Finished config →
      (∀ op name text, ((op, name), text) ∈ config.2 → ∃ (identifier : Nat) (output : List (List (List Record))),
        outputs[identifier]? = some output ∧ name = fileName op args.force identifier ∧
          Jsonl.read text = some ((recordsOf args output op).map fun item => .object (itemFields item))) ∧
      (∀ (identifier : Nat) (output : List (List (List Record))) (op : Int), outputs[identifier]? = some output →
        recordsOf args output op ≠ [] → ∃ text, ((op, fileName op args.force identifier), text) ∈ config.2) ∧
      (∀ opMin opMax maxFilesPerOp dataSource, prepareTexts config.2 opMin opMax maxFilesPerOp dataSource =
        prepareTexts (diskAfter (processWrites args outputs).flatten) opMin opMax maxFilesPerOp dataSource) ∧
      ∀ flatOutput name opMin opMax, findInputFiles (rootOf flatOutput name config.2) opMin opMax =
        findInputFiles (rootOf flatOutput name (diskAfter (processWrites args outputs).flatten)) opMin opMax) := by
  have alike := sends.alike runs
  refine ⟨fun path text member => ?_, Interleaving.exists_finished config, fun finished => ?_⟩
  · obtain ⟨rest, later⟩ := foldl_extends config.1.flatten config.2 path text member
    exact ⟨rest, alike.mem_iff.mpr later⟩
  · rw [finished.sequential] at alike
    have distinct := Sends.nodup runs
    refine ⟨fun op name text member => processes_files (alike.mem_iff.mpr member), ?_,
      fun _ _ _ _ => prepareTexts_perm alike.symm distinct _ _ _ _,
      fun _ _ _ _ => findInputFiles_perm alike.symm distinct _ _ _ _⟩
    intro identifier output op found filled
    obtain ⟨text, member⟩ := processes_kept found filled
    exact ⟨text, alike.mem_iff.mp member⟩

def twoOutputs : List (List (List (List Record))) := [[[[doubled]]], [[[doubled]]]]

theorem processes_agree_turns :
    prepareTexts
        (flush (flush (flush [] ((2, fileName 2 true 0), [])) ((2, fileName 2 true 1), itemsText [doubled]))
          ((2, fileName 2 true 0), itemsText [doubled])) 2 2 2 (lit "reasoning-compression") =
      prepareTexts (diskAfter (processWrites leakArgs twoOutputs).flatten) 2 2 2 (lit "reasoning-compression") := by
  have sends : Sends leakArgs twoOutputs
      [[((2, fileName 2 true 0), []), ((2, fileName 2 true 0), itemsText [doubled])],
        [((2, fileName 2 true 1), itemsText [doubled])]] := by
    have texts : (processWrites leakArgs twoOutputs).map (List.flatMap Write.texts) =
        [[((2, fileName 2 true 0), itemsText [doubled])], [((2, fileName 2 true 1), itemsText [doubled])]] := rfl
    rw [Sends, texts]
    exact .cons (.opened _ _) (.cons (.whole _ _) .nil)
  have runs : Runs flush (_, []) ([[], []], _) :=
    ((Relation.ReflTransGen.single (.perform [] ((2, fileName 2 true 0), []) _ _ [])).tail
      (.perform [_] ((2, fileName 2 true 1), itemsText [doubled]) [] [] _)).tail
        (.perform [] ((2, fileName 2 true 0), itemsText [doubled]) [] [[]] _)
  exact ((processes_agree sends runs).2.2 (by simp [Finished])).2.2.1 2 2 2 (lit "reasoning-compression")

end CotCompression
