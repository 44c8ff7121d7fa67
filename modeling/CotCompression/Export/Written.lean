import CotCompression.Export.Registry

set_option autoImplicit false

open Json (Value)

namespace CotCompression.Sft

open Text (lit strip)

def scanned (files : List (Int × InputFile)) : List Text := files.flatMap fun file => file.2.lines

def inputLines (args : Args) (dataRoot : DataRoot) : List Text :=
  scanned (findInputFiles dataRoot args.opMin args.opMax)

section Fields

-- A missing mode is called unknown, and null has no name.
def Field.name : Field → Option Text
  | .absent => some (lit "unknown")
  | .null => none
  | .str mode => some mode

def Wanted (args : Args) (mode : Field) : Prop :=
  args.modes.getD [] = [] ∨ ∃ name ∈ args.modes.getD [], mode.name = some name

instance (args : Args) (mode : Field) : Decidable (Wanted args mode) := inferInstanceAs (Decidable (_ ∨ _))

def sftOf (args : Args) (obj : Obj) : Option SftRecord :=
  match obj.problem, obj.question, obj.solution with
  | .str problem, .str question, .str solution =>
    if strip problem ≠ [] ∧ strip question ≠ [] ∧ strip solution ≠ [] then
      some ⟨strip problem ++ lit " " ++ strip question, strip solution, args.systemPrompt⟩
    else none
  | _, _, _ => none

variable {args : Args} {obj : Obj}

theorem name_mode : obj.mode.name = obj.modeOf := by
  rw [Obj.modeOf]
  cases obj.mode <;> rfl

theorem wanted_iff : Wanted args obj.mode ↔ filteredOut args obj.modeOf = false := by
  rw [Wanted, name_mode, filteredOut]
  cases args.modes with
  | none => simp
  | some modes =>
    simp only [Option.getD_some, Bool.and_eq_false_iff, Bool.not_eq_false', List.isEmpty_iff, List.any_eq_true,
      decide_eq_true_eq]

theorem sftOf_eq : sftOf args obj = obj.record args := by
  rw [sftOf, Obj.record]
  cases obj.problem <;> cases obj.question <;> cases obj.solution <;> simp only [Field.stripped, true_or, or_true, if_true]
  next problem question solution =>
    by_cases first : strip problem = [] <;> by_cases second : strip question = [] <;>
      by_cases third : strip solution = [] <;> simp [first, second, third]

end Fields

section Scan

variable (loads : Text → Option Obj) (args : Args)

-- The object on a line, unless the filter drops it.
def candidate (line : Text) : Option Obj :=
  if strip line = [] then none
  else (loads (strip line)).filter fun obj => decide (Wanted args obj.mode)

def undecodable (lines : List Text) : Nat :=
  lines.countP fun line => decide (strip line ≠ []) && (loads (strip line)).isNone

def recordFor (mode : Option Text) (line : Text) : Option SftRecord :=
  (candidate loads args line).bind fun obj => if obj.mode.name = mode then sftOf args obj else none

def capped {α : Type} (records : List α) : List α :=
  match args.maxSamplesPerMode with
  | none => records
  | some cap => records.take cap.toNat

def written (lines : List Text) (mode : Option Text) : List SftRecord :=
  capped args (lines.filterMap (recordFor loads args mode))

def content (records : List SftRecord) : Text := records.flatMap fun rec => dumps rec ++ ['\n']

-- A record with a blank field that is met while its mode's count is below the cap.
def blankAt (before : List Text) (line : Text) : Bool :=
  match candidate loads args line with
  | none => false
  | some obj => (sftOf args obj).isNone && !full args (written loads args before obj.mode.name).length

def blanksFrom (before : List Text) : List Text → Nat
  | [] => 0
  | line :: rest => (blankAt loads args before line).toNat + blanksFrom (before ++ [line]) rest

def blanks (lines : List Text) : Nat := blanksFrom loads args [] lines

-- With a cap every mode met, without one every mode with a record.
def Counted (lines : List Text) (mode : Option Text) : Prop :=
  ∃ line ∈ lines, ∃ obj, candidate loads args line = some obj ∧ obj.modeOf = mode ∧
    (args.maxSamplesPerMode.isSome = true ∨ (obj.record args).isSome = true)

structure Scanned (lines : List Text) (scan : Scan) : Prop where
  unnamed : written loads args lines none = []
  count (mode : Option Text) : scan.counts.getD mode 0 = (written loads args lines mode).length
  keys (mode : Option Text) : mode ∈ scan.counts.keys ↔ Counted loads args lines mode
  skipped : scan.skipped = undecodable loads lines + blanks loads args lines
  writers (mode : Option Text) : scan.writers.get? mode =
    if written loads args lines mode = [] then none
    else mode.map fun name => ⟨dataPath args.outputDir (slug name), content (written loads args lines mode)⟩

end Scan

section Steps

variable {loads : Text → Option Obj} {args : Args} {lines : List Text} {line : Text} {obj : Obj}
  {mode : Option Text} {scan next : Scan}

theorem full_iff (count : Nat) : full args count = true ↔
    ∃ cap, args.maxSamplesPerMode = some cap ∧ cap ≤ count := by
  rw [full]
  cases args.maxSamplesPerMode <;> simp

theorem capped_append {α : Type} (records : List α) (rec : α) : capped args (records ++ [rec]) =
    if full args (capped args records).length then capped args records else capped args records ++ [rec] := by
  rw [capped, capped, full]
  cases args.maxSamplesPerMode with
  | none => simp
  | some cap =>
    by_cases room : records.length < cap.toNat
    · have whole : records.take cap.toNat = records := List.take_of_length_le (by omega)
      have some : ¬ cap ≤ records.length := by omega
      simp only [whole, decide_eq_true_eq, if_neg some]
      exact List.take_of_length_le (by rw [List.length_append, List.length_singleton]; omega)
    · have none : cap ≤ (records.take cap.toNat).length := by
        rw [List.length_take]
        omega
      simp only [decide_eq_true_eq, if_pos none]
      exact List.take_append_of_le_length (by omega)

theorem written_append : written loads args (lines ++ [line]) mode = written loads args lines mode ++
    if full args (written loads args lines mode).length then [] else (recordFor loads args mode line).toList := by
  cases found : recordFor loads args mode line with
  | none =>
    have same : (lines ++ [line]).filterMap (recordFor loads args mode) =
        lines.filterMap (recordFor loads args mode) := by simp [found]
    rw [Option.toList_none, ite_self, List.append_nil, written, same, written]
  | some rec =>
    have more : (lines ++ [line]).filterMap (recordFor loads args mode) =
        lines.filterMap (recordFor loads args mode) ++ [rec] := by simp [found]
    rw [written, more, capped_append]
    change (if full args (written loads args lines mode).length then written loads args lines mode
      else written loads args lines mode ++ [rec]) = _
    split <;> simp

theorem blanksFrom_append (before front : List Text) : blanksFrom loads args before (front ++ [line]) =
    blanksFrom loads args before front + (blankAt loads args (before ++ front) line).toNat := by
  induction front generalizing before with
  | nil => simp [blanksFrom]
  | cons first front ih =>
    rw [List.cons_append, blanksFrom, blanksFrom, ih, ← List.append_cons, Nat.add_assoc]

theorem blanks_append : blanks loads args (lines ++ [line]) =
    blanks loads args lines + (blankAt loads args lines line).toNat := by
  rw [blanks, blanksFrom_append, List.nil_append, blanks]

theorem counted_append : Counted loads args (lines ++ [line]) mode ↔ Counted loads args lines mode ∨
    ∃ obj, candidate loads args line = some obj ∧ obj.modeOf = mode ∧
      (args.maxSamplesPerMode.isSome = true ∨ (obj.record args).isSome = true) := by
  simp only [Counted, List.mem_append, List.mem_singleton, or_and_right, exists_or, exists_eq_left]

theorem content_append (records : List SftRecord) (rec : SftRecord) :
    content (records ++ [rec]) = content records ++ (dumps rec ++ ['\n']) := by
  simp [content]

theorem undecodable_append : undecodable loads (lines ++ [line]) =
    undecodable loads lines + undecodable loads [line] := List.countP_append

theorem candidate_eq : candidate loads args line =
    if strip line = [] then none else (loads (strip line)).filter fun obj => !filteredOut args obj.modeOf := by
  rw [candidate]
  simp only [wanted_iff, Bool.decide_eq_false]

theorem scanLine_none (dropped : candidate loads args line = none) : scanLine loads args scan line =
    .ok { scan with skipped := scan.skipped + undecodable loads [line] } := by
  rw [candidate_eq] at dropped
  rw [scanLine, undecodable, List.countP_singleton]
  by_cases blank : strip line = []
  · simp [blank]
  · rw [if_neg blank] at dropped
    rw [if_neg blank]
    cases read : loads (strip line) with
    | none => simp [blank]
    | some obj =>
      have out : filteredOut args obj.modeOf = true := by simpa [read] using dropped
      simp [out]

theorem candidate_some (found : candidate loads args line = some obj) :
    strip line ≠ [] ∧ loads (strip line) = some obj ∧ filteredOut args obj.modeOf = false := by
  rw [candidate_eq] at found
  split at found
  · cases found
  · next filled =>
    obtain ⟨read, passed⟩ := Option.filter_eq_some_iff.mp found
    exact ⟨filled, read, by simpa using passed⟩

theorem scanLine_some (found : candidate loads args line = some obj) :
    (∀ scan, scanLine loads args scan line = scanObject args scan obj) ∧ undecodable loads [line] = 0 := by
  obtain ⟨filled, read, passed⟩ := candidate_some found
  constructor
  · intro scan
    simp [scanLine, filled, read, passed]
  · simp [undecodable, read]

theorem recordFor_none (dropped : candidate loads args line = none) :
    recordFor loads args mode line = none := by
  rw [recordFor, dropped, Option.bind_none]

theorem recordFor_some (found : candidate loads args line = some obj) : recordFor loads args mode line =
    if obj.modeOf = mode then obj.record args else none := by
  rw [recordFor, found, Option.bind_some, name_mode, sftOf_eq]

theorem counted_some (found : candidate loads args line = some obj) :
    Counted loads args (lines ++ [line]) mode ↔ Counted loads args lines mode ∨ mode = obj.modeOf ∧
      (args.maxSamplesPerMode.isSome = true ∨ (obj.record args).isSome = true) := by
  simp only [counted_append, found, Option.some.injEq, exists_eq_left', eq_comm (a := mode)]

theorem readCount_getD (counts : Dict (Option Text) Nat) (other : Option Text) :
    (readCount args counts mode).getD other 0 = counts.getD other 0 := by
  rw [readCount]
  split
  · exact Dict.getD_touch counts mode other 0
  · rfl

theorem mem_readCount {counts : Dict (Option Text) Nat} {other : Option Text} :
    other ∈ (readCount args counts mode).keys ↔
      other ∈ counts.keys ∨ other = mode ∧ args.maxSamplesPerMode.isSome = true := by
  rw [readCount]
  split
  · next given => rw [Dict.mem_keys_touch, or_comm, and_iff_left given]
  · next free => simp [free]

theorem getWriter_ok {writers : Dict (Option Text) Writer} {writer : Writer}
    (opened : getWriter args writers mode = .ok writer) : writers.get? mode = some writer ∨
      ∃ name, mode = some name ∧ writers.get? mode = none ∧
        writer = ⟨dataPath args.outputDir (slug name), []⟩ := by
  rw [getWriter] at opened
  cases found : writers.get? mode with
  | some writer =>
    rw [found] at opened
    exact .inl (congrArg some (Except.ok.inj opened))
  | none =>
    rw [found] at opened
    cases mode with
    | none => cases opened
    | some name => exact .inr ⟨name, rfl, rfl, (Except.ok.inj opened).symm⟩

theorem scanObject_cases (step : scanObject args scan obj = .ok next) :
    (full args (scan.counts.getD obj.modeOf 0) = true ∧
      next = { scan with counts := readCount args scan.counts obj.modeOf }) ∨
    (full args (scan.counts.getD obj.modeOf 0) = false ∧ obj.record args = none ∧
      next = ⟨readCount args scan.counts obj.modeOf, scan.skipped + 1, scan.writers⟩) ∨
    ∃ rec writer, full args (scan.counts.getD obj.modeOf 0) = false ∧ obj.record args = some rec ∧
      getWriter args scan.writers obj.modeOf = .ok writer ∧
      next = ⟨(readCount args scan.counts obj.modeOf).set obj.modeOf (scan.counts.getD obj.modeOf 0 + 1),
        scan.skipped, scan.writers.set obj.modeOf (writer.write (dumps rec ++ ['\n']))⟩ := by
  simp only [scanObject, readCount_getD] at step
  split at step
  · next atCap => exact .inl ⟨atCap, (Except.ok.inj step).symm⟩
  · next below =>
    rw [Bool.not_eq_true] at below
    cases made : obj.record args with
    | none =>
      rw [made] at step
      exact .inr (.inl ⟨below, rfl, (Except.ok.inj step).symm⟩)
    | some rec =>
      rw [made] at step
      obtain ⟨writer, opened, step⟩ := bind_eq_ok.mp step
      exact .inr (.inr ⟨rec, writer, below, rfl, opened, (Except.ok.inj step).symm⟩)

theorem Scanned.keep {counts : Dict (Option Text) Nat} {skipped : Nat} (inv : Scanned loads args lines scan)
    (kept : ∀ mode, written loads args (lines ++ [line]) mode = written loads args lines mode)
    (count : ∀ mode, counts.getD mode 0 = scan.counts.getD mode 0)
    (keys : ∀ mode, mode ∈ counts.keys ↔ Counted loads args (lines ++ [line]) mode)
    (total : skipped = undecodable loads (lines ++ [line]) + blanks loads args (lines ++ [line])) :
    Scanned loads args (lines ++ [line]) ⟨counts, skipped, scan.writers⟩ where
  unnamed := by rw [kept, inv.unnamed]
  count mode := by rw [count, kept, inv.count]
  keys := keys
  skipped := total
  writers mode := by rw [kept, inv.writers]

theorem Scanned.writer {writer : Writer} (inv : Scanned loads args lines scan)
    (opened : getWriter args scan.writers mode = .ok writer) : ∃ name, mode = some name ∧
      writer = ⟨dataPath args.outputDir (slug name), content (written loads args lines mode)⟩ := by
  have before := inv.writers mode
  rcases getWriter_ok opened with present | ⟨name, is, absent, rfl⟩
  · rw [present] at before
    split at before
    · cases before
    · obtain ⟨name, is, same⟩ := Option.map_eq_some_iff.mp before.symm
      exact ⟨name, is, same.symm⟩
  · rw [absent] at before
    split at before
    · next empty => exact ⟨name, is, by rw [empty]; rfl⟩
    · rw [is] at before
      cases before

theorem Scanned.counted {other : Option Text} (inv : Scanned loads args lines scan) :
    mode ∈ (readCount args scan.counts other).keys ↔
      Counted loads args lines mode ∨ mode = other ∧ args.maxSamplesPerMode.isSome = true := by
  rw [mem_readCount, inv.keys]

theorem Scanned.total (inv : Scanned loads args lines scan) (found : candidate loads args line = some obj) :
    undecodable loads (lines ++ [line]) + blanks loads args (lines ++ [line]) =
      scan.skipped + ((obj.record args).isNone && !full args (scan.counts.getD obj.modeOf 0)).toNat := by
  have blank : blankAt loads args lines line =
      ((obj.record args).isNone && !full args (scan.counts.getD obj.modeOf 0)) := by
    simp only [blankAt, found, inv.count, name_mode, sftOf_eq]
  rw [undecodable_append, (scanLine_some found).2, blanks_append, blank, inv.skipped]
  omega

theorem Scanned.dropped (inv : Scanned loads args lines scan) (found : candidate loads args line = none) :
    Scanned loads args (lines ++ [line]) { scan with skipped := scan.skipped + undecodable loads [line] } := by
  refine inv.keep (fun mode => ?_) (fun _ => rfl) (fun mode => ?_) ?_
  · rw [written_append, recordFor_none found, Option.toList_none, ite_self, List.append_nil]
  · simp [inv.keys, counted_append, found]
  · simp only [inv.skipped, undecodable_append, blanks_append, blankAt, found, Bool.toNat_false]
    omega

theorem Scanned.capped (inv : Scanned loads args lines scan) (found : candidate loads args line = some obj)
    (atCap : full args (scan.counts.getD obj.modeOf 0) = true) :
    Scanned loads args (lines ++ [line]) { scan with counts := readCount args scan.counts obj.modeOf } := by
  refine inv.keep (fun mode => ?_) (readCount_getD _) (fun mode => ?_) ?_
  · rw [written_append, recordFor_some found]
    by_cases here : obj.modeOf = mode
    · rw [← here, if_pos (by rw [← inv.count, atCap]), List.append_nil]
    · rw [if_neg here, Option.toList_none, ite_self, List.append_nil]
  · obtain ⟨cap, given, -⟩ := (full_iff _).mp atCap
    rw [inv.counted, counted_some found]
    simp [given]
  · simp [inv.total found, atCap]

theorem Scanned.blank (inv : Scanned loads args lines scan) (found : candidate loads args line = some obj)
    (below : full args (scan.counts.getD obj.modeOf 0) = false) (hollow : obj.record args = none) :
    Scanned loads args (lines ++ [line])
      ⟨readCount args scan.counts obj.modeOf, scan.skipped + 1, scan.writers⟩ := by
  refine inv.keep (fun mode => ?_) (readCount_getD _) (fun mode => ?_) ?_
  · rw [written_append, recordFor_some found, hollow, ite_self, Option.toList_none, ite_self, List.append_nil]
  · rw [inv.counted, counted_some found]
    simp [hollow]
  · rw [inv.total found, below, hollow]
    rfl

theorem Scanned.write {rec : SftRecord} {writer : Writer} (inv : Scanned loads args lines scan)
    (found : candidate loads args line = some obj) (below : full args (scan.counts.getD obj.modeOf 0) = false)
    (made : obj.record args = some rec) (opened : getWriter args scan.writers obj.modeOf = .ok writer) :
    Scanned loads args (lines ++ [line])
      ⟨(readCount args scan.counts obj.modeOf).set obj.modeOf (scan.counts.getD obj.modeOf 0 + 1),
        scan.skipped, scan.writers.set obj.modeOf (writer.write (dumps rec ++ ['\n']))⟩ := by
  -- only the mode of the line has more to hold
  have grown (mode : Option Text) : written loads args (lines ++ [line]) mode =
      if mode = obj.modeOf then written loads args lines mode ++ [rec] else written loads args lines mode := by
    rw [written_append, recordFor_some found]
    by_cases here : mode = obj.modeOf
    · rw [here, if_pos rfl, if_pos rfl, ← inv.count, below, if_neg (by decide), made, Option.toList_some]
    · rw [if_neg here, if_neg (Ne.symm here), Option.toList_none, ite_self, List.append_nil]
  obtain ⟨name, is, rfl⟩ := inv.writer opened
  exact {
    unnamed := by rw [grown, if_neg (by rw [is]; exact (Option.some_ne_none name).symm), inv.unnamed]
    count := fun mode => by
      rw [Dict.getD_set, grown, readCount_getD]
      split
      · next here => rw [List.length_append, here, inv.count, List.length_singleton]
      · exact inv.count mode
    keys := fun mode => by
      rw [Dict.mem_keys_set, inv.counted, counted_some found]
      simp only [made, Option.isSome_some, or_true, and_true]
      tauto
    skipped := by simp [inv.total found, made]
    writers := fun mode => by
      rw [Dict.get?_set, grown]
      split
      · next here =>
        rw [if_neg (by simp), here, is, Writer.write, content_append]
        rfl
      · exact inv.writers mode }

theorem Scanned.step (inv : Scanned loads args lines scan) (step : scanLine loads args scan line = .ok next) :
    Scanned loads args (lines ++ [line]) next := by
  cases found : candidate loads args line with
  | none =>
    rw [scanLine_none found] at step
    obtain rfl := Except.ok.inj step
    exact inv.dropped found
  | some obj =>
    rw [(scanLine_some found).1 scan] at step
    rcases scanObject_cases step with ⟨atCap, rfl⟩ | ⟨below, hollow, rfl⟩ |
      ⟨rec, writer, below, made, opened, rfl⟩
    · exact inv.capped found atCap
    · exact inv.blank found below hollow
    · exact inv.write found below made opened

theorem getWriter_named (writers : Dict (Option Text) Writer) (name : Text) :
    ∃ writer, getWriter args writers (some name) = .ok writer := by
  rw [getWriter]
  cases writers.get? (some name) with
  | some writer => exact ⟨writer, rfl⟩
  | none => exact ⟨_, rfl⟩

theorem Scanned.goes (inv : Scanned loads args lines scan)
    (unnamed : written loads args (lines ++ [line]) none = []) :
    ∃ next, scanLine loads args scan line = .ok next := by
  cases found : candidate loads args line with
  | none => exact ⟨_, scanLine_none found⟩
  | some obj =>
    rw [(scanLine_some found).1, scanObject, readCount_getD]
    by_cases atCap : full args (scan.counts.getD obj.modeOf 0) = true
    · exact ⟨_, if_pos atCap⟩
    · simp only [if_neg atCap]
      cases made : obj.record args with
      | none => exact ⟨_, rfl⟩
      | some rec =>
        cases mode : obj.modeOf with
        | none =>
          rw [written_append, recordFor_some found, if_pos mode, made, ← inv.count, ← mode,
            if_neg atCap] at unnamed
          simp at unnamed
        | some name =>
          obtain ⟨writer, opened⟩ : ∃ writer, getWriter args scan.writers (some name) = .ok writer :=
            getWriter_named scan.writers name
          rw [opened]
          exact ⟨_, rfl⟩

theorem written_eq_nil : written loads args lines mode = [] ↔
    full args 0 = true ∨ ∀ line ∈ lines, recordFor loads args mode line = none := by
  rw [← List.filterMap_eq_nil_iff, written, capped, full]
  cases args.maxSamplesPerMode with
  | none => simp
  | some cap => simp [List.take_eq_nil_iff]

theorem written_ne_nil : written loads args lines mode ≠ [] ↔ full args 0 = false ∧
    ∃ line ∈ lines, ∃ obj, candidate loads args line = some obj ∧ obj.modeOf = mode ∧
      (obj.record args).isSome = true := by
  have record (line : Text) : recordFor loads args mode line ≠ none ↔
      ∃ obj, candidate loads args line = some obj ∧ obj.modeOf = mode ∧ (obj.record args).isSome = true := by
    cases found : candidate loads args line with
    | none => simp [recordFor_none found]
    | some obj => simp [recordFor_some found, Option.isSome_iff_ne_none]
  rw [Ne, written_eq_nil, not_or, Bool.not_eq_true]
  simp only [not_forall, record, exists_prop]

theorem Scanned.start : Scanned loads args [] Scan.start where
  unnamed := written_eq_nil.mpr (.inr (by simp))
  count mode := by rw [written_eq_nil.mpr (.inr (by simp))]; rfl
  keys mode := by simp [Scan.start, Counted]
  skipped := rfl
  writers mode := by rw [if_pos (written_eq_nil.mpr (.inr (by simp)))]; rfl

theorem scanFiles_eq (files : List (Int × InputFile)) :
    scanFiles loads args files = (scanned files).foldlM (scanLine loads args) Scan.start := by
  rw [scanned, List.flatMap, ← foldlM_flatten, List.foldlM_map]
  rfl

theorem scanFiles_scanned {files : List (Int × InputFile)} (run : scanFiles loads args files = .ok scan) :
    Scanned loads args (scanned files) scan := by
  rw [scanFiles_eq] at run
  exact foldlM_read Scanned.start (fun _ _ _ _ inv step => inv.step step) run

theorem scanFiles_ok_iff (files : List (Int × InputFile)) :
    (∃ scan, scanFiles loads args files = .ok scan) ↔ written loads args (scanned files) none = [] := by
  constructor
  · rintro ⟨scan, run⟩
    exact (scanFiles_scanned run).unnamed
  · intro unnamed
    rw [scanFiles_eq]
    refine foldlM_ok Scanned.start (fun _ _ _ _ inv step => inv.step step) fun front line back scan same inv =>
      inv.goes ?_
    rw [written_eq_nil] at unnamed ⊢
    refine unnamed.imp_right fun unnamed other member => unnamed other ?_
    rw [same]
    grind

end Steps

section Main

variable {loads : Text → Option Obj} {args : Args} {dataRoot : DataRoot} {info : Dict Text Value} {run : Run}
  {lines : List Text} {scan : Scan}

theorem sortedCounts_ok_iff (counts : Dict (Option Text) Nat) : (∃ sorted, sortedCounts counts = .ok sorted) ↔
    ¬ (none ∈ counts.keys ∧ 2 ≤ counts.keys.length) := by
  rw [sortedCounts]
  split
  · next unordered => exact iff_of_false (fun ⟨_, same⟩ => nomatch same) (not_not_intro unordered)
  · next ordered => exact iff_of_true ⟨_, rfl⟩ ordered

theorem main_eq_ok : main loads args dataRoot info = .ok run ↔
    findInputFiles dataRoot args.opMin args.opMax ≠ [] ∧
    scanFiles loads args (findInputFiles dataRoot args.opMin args.opMax) = .ok run.scan ∧
    (∃ sorted, sortedCounts run.scan.counts = .ok sorted) ∧
    if args.register = true ∧ run.scan.counts.keys ≠ [] then
      ∃ registry, registerModes args run.scan.counts info = .ok registry ∧ run.registry = some registry
    else run.registry = none := by
  obtain ⟨scan, registry⟩ := run
  simp only [main, List.isEmpty_iff, Bool.and_eq_true, Bool.not_eq_true', List.isEmpty_eq_false_iff]
  by_cases empty : findInputFiles dataRoot args.opMin args.opMax = []
  · simp [empty]
  · rw [if_neg empty, and_iff_right empty]
    simp only [bind_eq_ok]
    constructor
    · rintro ⟨scan, scanned, sorted, order, last⟩
      split at last
      · next registers =>
        obtain ⟨registry, registered, last⟩ := bind_eq_ok.mp last
        obtain ⟨rfl, rfl⟩ := Run.mk.inj (Except.ok.inj last)
        exact ⟨scanned, ⟨sorted, order⟩, by rw [if_pos registers]; exact ⟨registry, registered, rfl⟩⟩
      · next keeps =>
        obtain ⟨rfl, rfl⟩ := Run.mk.inj (Except.ok.inj last)
        exact ⟨scanned, ⟨sorted, order⟩, by rw [if_neg keeps]⟩
    · rintro ⟨scanned, ⟨sorted, order⟩, last⟩
      refine ⟨scan, scanned, sorted, order, ?_⟩
      split at last
      · next registers =>
        obtain ⟨registry, registered, rfl⟩ := last
        rw [if_pos registers, registered]
        rfl
      · next keeps =>
        rw [if_neg keeps, last]
        rfl

theorem main_ok (input : findInputFiles dataRoot args.opMin args.opMax ≠ [])
    (scanning : scanFiles loads args (findInputFiles dataRoot args.opMin args.opMax) = .ok scan)
    (named : none ∉ scan.counts.keys) : ∃ run, main loads args dataRoot info = .ok run ∧ run.scan = scan := by
  have order := (sortedCounts_ok_iff scan.counts).mpr fun both => named both.1
  obtain ⟨registry, registered⟩ : ∃ registry, registerModes args scan.counts info = .ok registry :=
    registerModes_ok named
  refine ⟨⟨scan, if args.register = true ∧ scan.counts.keys ≠ [] then some registry else none⟩,
    main_eq_ok.mpr ⟨input, scanning, order, ?_⟩, rfl⟩
  split
  · exact ⟨registry, registered, rfl⟩
  · rfl

theorem dataPath_inj {outputDir : Path} {first second : Slug} :
    dataPath outputDir first = dataPath outputDir second ↔ first = second := by
  obtain ⟨first, _⟩ := first
  obtain ⟨second, _⟩ := second
  simp [dataPath]

theorem Scanned.entry {entry : Option Text × Writer} (inv : Scanned loads args lines scan)
    (member : entry ∈ scan.writers.entries) :
    ∃ mode, entry.1 = some mode ∧ written loads args lines (some mode) ≠ [] ∧
      entry.2 = ⟨dataPath args.outputDir (slug mode), content (written loads args lines (some mode))⟩ := by
  have found := Dict.get?_eq_some.mpr member
  rw [inv.writers] at found
  split at found
  · cases found
  · next filled =>
    obtain ⟨mode, is, same⟩ := Option.map_eq_some_iff.mp found
    rw [is] at filled same
    exact ⟨mode, is, filled, same.symm⟩

theorem Scanned.opened (inv : Scanned loads args lines run.scan) (path : Path) : path ∈ run.opened ↔
    ∃ mode, written loads args lines (some mode) ≠ [] ∧ path = dataPath args.outputDir (slug mode) := by
  rw [Run.opened, List.mem_map]
  constructor
  · rintro ⟨entry, member, rfl⟩
    obtain ⟨mode, -, filled, writer⟩ := inv.entry member
    exact ⟨mode, filled, by rw [writer]⟩
  · rintro ⟨mode, filled, rfl⟩
    have found := inv.writers (some mode)
    rw [if_neg filled] at found
    exact ⟨_, Dict.get?_eq_some.mp found, rfl⟩

def Apart (loads : Text → Option Obj) (args : Args) (lines : List Text) : Prop :=
  ∀ first second, written loads args lines (some first) ≠ [] → written loads args lines (some second) ≠ [] →
    slug first = slug second → first = second

theorem Scanned.file {overlaid : Text → List Text → Text} {before : Path → Option Text} {mode : Text}
    (inv : Scanned loads args lines run.scan) (apart : Apart loads args lines)
    (filled : written loads args lines (some mode) ≠ []) :
    run.file overlaid args before (dataPath args.outputDir (slug mode)) =
      some ((if args.overwrite then [] else (before (dataPath args.outputDir (slug mode))).getD []) ++
        content (written loads args lines (some mode))) := by
  have found := inv.writers (some mode)
  rw [if_neg filled] at found
  have only : ∀ entry ∈ run.scan.writers.entries,
      decide (entry.2.path = dataPath args.outputDir (slug mode)) = true ↔ entry.1 = some mode := by
    intro entry member
    obtain ⟨other, is, wrote, writer⟩ := inv.entry member
    rw [writer, is, decide_eq_true_eq, dataPath_inj, Option.some.injEq]
    exact ⟨apart other mode wrote filled, congrArg slug⟩
  have handles : (run.scan.writers.entries.map Prod.snd).filter
      (fun writer => writer.path = dataPath args.outputDir (slug mode)) =
      [⟨dataPath args.outputDir (slug mode), content (written loads args lines (some mode))⟩] := by
    rw [List.filter_map]
    exact congrArg (List.map Prod.snd) (Dict.filter_entries found only)
  rw [Run.file, handles]

structure Exported (loads : Text → Option Obj) (args : Args) (lines : List Text)
    (overlaid : Text → List Text → Text) (before : Path → Option Text) (run : Run) : Prop where
  files (mode : Text) (filled : written loads args lines (some mode) ≠ []) :
    run.file overlaid args before (dataPath args.outputDir (slug mode)) =
      some (content (written loads args lines (some mode)))
  opened (path : Path) : path ∈ run.opened ↔
    ∃ mode, written loads args lines (some mode) ≠ [] ∧ path = dataPath args.outputDir (slug mode)
  skipped : run.scan.skipped = undecodable loads lines + blanks loads args lines
  registry : args.register = false → run.registry = none

theorem recordFor_unnamed {line : Text}
    (named : ∀ obj, candidate loads args line = some obj → obj.modeOf ≠ none) :
    recordFor loads args none line = none := by
  cases found : candidate loads args line with
  | none => exact recordFor_none found
  | some obj => rw [recordFor_some found, if_neg (named obj found)]

-- Without a null mode the run ends, and each record to write is in the file of its mode, once.
theorem main_exports (loads : Text → Option Obj) (args : Args) (dataRoot : DataRoot) (info : Dict Text Value)
    (overlaid : Text → List Text → Text) (before : Path → Option Text) (overwrite : args.overwrite = true)
    (named : ∀ line ∈ inputLines args dataRoot, strip line ≠ [] → ∀ obj,
      loads (strip line) = some obj → obj.mode ≠ .null)
    (apart : Apart loads args (inputLines args dataRoot)) :
    (findInputFiles dataRoot args.opMin args.opMax = [] →
      ∃ message, main loads args dataRoot info = .error (.systemExit message)) ∧
    (findInputFiles dataRoot args.opMin args.opMax ≠ [] → ∃ run, main loads args dataRoot info = .ok run ∧
      Exported loads args (inputLines args dataRoot) overlaid before run) := by
  constructor
  · intro empty
    exact ⟨_, by rw [main, empty]; rfl⟩
  · intro found
    have modes : ∀ line ∈ inputLines args dataRoot,
        ∀ obj, candidate loads args line = some obj → obj.modeOf ≠ none := by
      intro line member obj is
      obtain ⟨filled, read, -⟩ := candidate_some is
      have given := named line member filled obj read
      rw [Obj.modeOf]
      cases mode : obj.mode with
      | absent => exact Option.some_ne_none _
      | null => exact absurd mode given
      | str mode => exact Option.some_ne_none _
    obtain ⟨scan, scanning⟩ := (scanFiles_ok_iff _).mpr (written_eq_nil.mpr (.inr fun line member =>
      recordFor_unnamed (modes line member)))
    have inv : Scanned loads args (inputLines args dataRoot) scan := scanFiles_scanned scanning
    have keys : none ∉ scan.counts.keys := by
      rw [inv.keys]
      rintro ⟨line, member, obj, is, null, -⟩
      exact modes line member obj is null
    obtain ⟨run, ran, is⟩ : ∃ run, main loads args dataRoot info = .ok run ∧ run.scan = scan :=
      main_ok found scanning keys
    rw [← is] at inv
    obtain ⟨-, -, -, last⟩ := main_eq_ok.mp ran
    exact ⟨run, ran, {
      files := fun mode filled => by rw [inv.file apart filled, if_pos overwrite, List.nil_append]
      opened := inv.opened
      skipped := inv.skipped
      registry := fun off => by
        rw [if_neg (by simp [off])] at last
        exact last }⟩

def pairLine : Text :=
  lit "\x7b\"mode\": \"explicit\", \"problem\": \"a = 5.\", \"question\": \"a?\", \"solution\": \"5\"\x7d\n"

def cutLine : Text := lit "\x7b\"mode\": \n"

def pairObj : Obj where
  mode := .str (lit "explicit")
  problem := .str (lit "a = 5.")
  question := .str (lit "a?")
  solution := .str (lit "5")

def pairLoads (line : Text) : Option Obj := if line = strip pairLine then some pairObj else none

def pairArgs : Args where
  outputDir := ⟨[lit "data", lit "arithmetic_sft"], by decide⟩
  opMin := 10
  opMax := 10
  modes := none
  maxSamplesPerMode := none
  register := false
  infoDir := ⟨[lit "data"], by decide⟩
  datasetPrefix := lit "arithmetic_sft"
  overwrite := true
  systemPrompt := lit "Modulo 23."

-- One line that decodes and one that breaks off.
def pairRoot : DataRoot where
  name := lit "out"
  plain op := if op = 10 then some [⟨lit "explicit.jsonl", [pairLine, cutLine]⟩] else none
  zeroContext _ := none

theorem pairRoot_files :
    findInputFiles pairRoot 10 10 = [(10, ⟨lit "explicit.jsonl", [pairLine, cutLine]⟩)] := by
  have jsonl : lit ".jsonl" <:+ lit "explicit.jsonl" := by decide
  simp [findInputFiles, globJsonl, pairRoot, jsonl]

theorem pairRoot_lines : inputLines pairArgs pairRoot = [pairLine, cutLine] := by
  rw [inputLines, pairArgs, pairRoot_files]
  rfl

theorem pairLoads_some {line : Text} {obj : Obj} (read : pairLoads line = some obj) : obj = pairObj := by
  rw [pairLoads] at read
  split at read
  · exact (Option.some.inj read).symm
  · cases read

theorem main_exports_pair : ∃ run, main pairLoads pairArgs pairRoot .empty = .ok run ∧
    run.file (fun _ _ => []) pairArgs (fun _ => none) (dataPath pairArgs.outputDir (slug (lit "explicit"))) =
      some (lit "\x7b\"instruction\": \"a = 5. a?\", \"output\": \"5\", \"system\": \"Modulo 23.\"\x7d\n") ∧
    run.scan.skipped = 1 := by
  have only (mode : Text)
      (filled : written pairLoads pairArgs (inputLines pairArgs pairRoot) (some mode) ≠ []) :
      mode = lit "explicit" := by
    obtain ⟨-, line, -, obj, found, is, -⟩ := written_ne_nil.mp filled
    rw [pairLoads_some (candidate_some found).2.1] at is
    exact (Option.some.inj is).symm
  obtain ⟨-, exports⟩ := main_exports pairLoads pairArgs pairRoot .empty (fun _ _ => []) (fun _ => none) rfl
    (fun line _ _ obj read => by rw [pairLoads_some read]; decide)
    (fun first second one two _ => (only first one).trans (only second two).symm)
  obtain ⟨run, ran, exported⟩ := exports (by
    rw [pairArgs, pairRoot_files]
    exact List.cons_ne_nil _ _)
  rw [pairRoot_lines] at exported
  exact ⟨run, ran, (exported.files (lit "explicit") (by decide)).trans (by decide),
    exported.skipped.trans (by decide)⟩

end Main

end CotCompression.Sft
