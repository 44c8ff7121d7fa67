import CotCompression.Export.Written

set_option autoImplicit false

open Json (Value)

namespace CotCompression.Sft

open Text (lit strip)

def Run.registryOf (info : Dict Text Value) (run : Run) : Registry := run.registry.getD ⟨[], info⟩

structure Registered (loads : Text → Option Obj) (args : Args) (lines : List Text)
    (overlaid : Text → List Text → Text) (before : Path → Option Text) (info : Dict Text Value) (run : Run) :
    Prop where
  assigned (name : Text) : name ∈ (run.registryOf info).assigned ↔
    ∃ mode, written loads args lines (some mode) ≠ [] ∧ name = entryName args (slug mode)
  apart (first second : Text) : written loads args lines (some first) ≠ [] →
    written loads args lines (some second) ≠ [] →
    entryName args (slug first) = entryName args (slug second) → first = second
  entry (mode : Text) : written loads args lines (some mode) ≠ [] → ∃ (name : Text) (path : Path),
    (run.registryOf info).info.get? (entryName args (slug mode)) = some (datasetEntry name) ∧
    resolve args.infoDir name = path.parts ∧
    run.file overlaid args before path = some (content (written loads args lines (some mode)))
  other (name : Text) : name ∉ (run.registryOf info).assigned →
    (run.registryOf info).info.get? name = info.get? name

def HasRecord (loads : Text → Option Obj) (args : Args) (lines : List Text) (mode : Option Text) : Prop :=
  (∀ cap, args.maxSamplesPerMode = some cap → 0 < cap) ∧
    ∃ line ∈ lines, ∃ obj, candidate loads args line = some obj ∧ obj.modeOf = mode ∧
      (obj.record args).isSome = true

section Registered

variable {loads : Text → Option Obj} {args : Args} {dataRoot : DataRoot} {info : Dict Text Value} {run : Run}
  {lines : List Text} {mode : Option Text}

theorem hasRecord_iff : HasRecord loads args lines mode ↔ written loads args lines mode ≠ [] := by
  have room : (∀ cap, args.maxSamplesPerMode = some cap → 0 < cap) ↔ full args 0 = false := by
    rw [← Bool.not_eq_true, full_iff]
    simp
  rw [HasRecord, room, written_ne_nil]

theorem HasRecord.counted (holds : HasRecord loads args lines mode) : Counted loads args lines mode := by
  obtain ⟨-, line, member, obj, found, is, made⟩ := holds
  exact ⟨line, member, obj, found, is, .inr made⟩

theorem main_registers (register : args.register = true) (ran : main loads args dataRoot info = .ok run) :
    Registers args info run.scan.counts.keys (run.registryOf info) := by
  obtain ⟨-, -, -, last⟩ := main_eq_ok.mp ran
  rw [Run.registryOf]
  split at last
  · obtain ⟨registry, registered, is⟩ := last
    rw [is]
    exact registerModes_registers registered
  · next keeps =>
    have empty : run.scan.counts.keys = [] := by simpa [register] using keeps
    rw [last, empty]
    exact Registers.start

-- Every key of the counts stands for a file, and every file for one mode.
theorem registered_iff (loads : Text → Option Obj) (args : Args) (dataRoot : DataRoot) (info : Dict Text Value)
    (overlaid : Text → List Text → Text) (before : Path → Option Text) (register : args.register = true)
    (input : findInputFiles dataRoot args.opMin args.opMax ≠ [])
    (fresh : ∀ slug, before (dataPath args.outputDir slug) = none) :
    (∃ run, main loads args dataRoot info = .ok run ∧
      Registered loads args (inputLines args dataRoot) overlaid before info run) ↔
    (∀ mode, Counted loads args (inputLines args dataRoot) mode → ∃ name other, mode = some name ∧
      slug name = slug other ∧ HasRecord loads args (inputLines args dataRoot) (some other)) ∧
    ∀ first second, HasRecord loads args (inputLines args dataRoot) (some first) →
      HasRecord loads args (inputLines args dataRoot) (some second) → slug first = slug second →
      first = second := by
  simp only [hasRecord_iff]
  constructor
  · rintro ⟨run, ran, registered⟩
    obtain ⟨-, scanning, -⟩ := main_eq_ok.mp ran
    have inv := scanFiles_scanned scanning
    have registers := main_registers register ran
    refine ⟨fun mode counted => ?_, fun first second one two same =>
      registered.apart first second one two (entryName_inj.mpr same)⟩
    have key := (inv.keys mode).mpr counted
    cases mode with
    | none => exact absurd key registers.named
    | some name =>
      obtain ⟨other, filled, same⟩ := (registered.assigned _).mp ((registers.assigned _).mpr ⟨name, key, rfl⟩)
      exact ⟨name, other, rfl, entryName_inj.mp same, filled⟩
  · rintro ⟨filed, apart⟩
    have unnamed : written loads args (inputLines args dataRoot) none = [] := by
      by_contra filled
      obtain ⟨name, -, is, -⟩ := filed none (hasRecord_iff.mpr filled).counted
      cases is
    obtain ⟨scan, scanning⟩ := (scanFiles_ok_iff _).mpr unnamed
    have inv : Scanned loads args (inputLines args dataRoot) scan := scanFiles_scanned scanning
    have named : none ∉ scan.counts.keys := by
      rw [inv.keys]
      intro counted
      obtain ⟨name, -, is, -⟩ := filed none counted
      cases is
    obtain ⟨run, ran, is⟩ : ∃ run, main loads args dataRoot info = .ok run ∧ run.scan = scan :=
      main_ok input scanning named
    rw [← is] at inv
    have registers := main_registers register ran
    have key (mode : Text) (filled : written loads args (inputLines args dataRoot) (some mode) ≠ []) :
        some mode ∈ run.scan.counts.keys :=
      (inv.keys _).mpr (hasRecord_iff.mpr filled).counted
    refine ⟨run, ran, ?_⟩
    exact {
      assigned := fun name => by
        rw [registers.assigned]
        constructor
        · rintro ⟨mode, counted, rfl⟩
          obtain ⟨name, other, here, same, filled⟩ := filed _ ((inv.keys _).mp counted)
          obtain rfl := Option.some.inj here
          exact ⟨other, filled, by rw [same]⟩
        · rintro ⟨mode, filled, rfl⟩
          exact ⟨mode, key mode filled, rfl⟩
      apart := fun first second one two same => apart first second one two (entryName_inj.mp same)
      entry := fun mode filled => by
        refine ⟨_, dataPath args.outputDir (slug mode), registers.entry mode (key mode filled),
          resolve_relativeName _ _, ?_⟩
        rw [inv.file apart filled, fresh, Option.getD_none, ite_self, List.nil_append]
      other := registers.other }

def pairRegister : Args := { pairArgs with register := true }

theorem registered_iff_pair : ∃ run, main pairLoads pairRegister pairRoot .empty = .ok run ∧
    Registered pairLoads pairRegister [pairLine, cutLine] (fun _ _ => []) (fun _ => none) .empty run := by
  have input : findInputFiles pairRoot 10 10 ≠ [] := by
    rw [pairRoot_files]
    exact List.cons_ne_nil _ _
  have only {mode : Option Text} (counted : Counted pairLoads pairRegister [pairLine, cutLine] mode) :
      mode = some (lit "explicit") := by
    obtain ⟨line, -, obj, found, is, -⟩ := counted
    rw [← is, pairLoads_some (candidate_some found).2.1]
    rfl
  have holds : HasRecord pairLoads pairRegister [pairLine, cutLine] (some (lit "explicit")) :=
    ⟨(fun _ given => nomatch given), pairLine, List.mem_cons_self, pairObj, by decide, rfl, by decide⟩
  have condition := registered_iff pairLoads pairRegister pairRoot .empty (fun _ _ => []) (fun _ => none) rfl
    input fun _ => rfl
  rw [show inputLines pairRegister pairRoot = [pairLine, cutLine] from pairRoot_lines] at condition
  refine condition.mpr ⟨fun mode counted => ⟨_, _, only counted, rfl, holds⟩, fun first second one two _ => ?_⟩
  exact Option.some.inj ((only one.counted).trans (only two.counted).symm)

def blankLine : Text := lit "\x7b\"mode\": \"explicit\", \"problem\": \"\"\x7d\n"

def blankLoads (line : Text) : Option Obj :=
  if line = strip blankLine then some ⟨.str (lit "explicit"), .str [], .absent, .absent⟩ else none

def blankRoot : DataRoot where
  name := lit "out"
  plain op := if op = 10 then some [⟨lit "explicit.jsonl", [blankLine]⟩] else none
  zeroContext _ := none

def cappedRegister : Args := { pairArgs with register := true, maxSamplesPerMode := some 5 }

-- The test of the cap counts a mode whose only record is skipped: an entry without a file.
theorem unwritten_registered : ∃ run, main blankLoads cappedRegister blankRoot .empty = .ok run ∧
    run.opened = [] ∧ lit "arithmetic_sft_explicit" ∈ (run.registryOf .empty).assigned ∧
    ¬ Registered blankLoads cappedRegister [blankLine] (fun _ _ => []) (fun _ => none) .empty run := by
  have files : findInputFiles blankRoot 10 10 = [(10, ⟨lit "explicit.jsonl", [blankLine]⟩)] := by
    have jsonl : lit ".jsonl" <:+ lit "explicit.jsonl" := by decide
    simp [findInputFiles, globJsonl, blankRoot, jsonl]
  have scanning : scanFiles blankLoads cappedRegister (findInputFiles blankRoot 10 10) =
      .ok ⟨Dict.empty.set (some (lit "explicit")) 0, 1, .empty⟩ := by
    rw [files]
    rfl
  obtain ⟨run, ran, is⟩ : ∃ run, main blankLoads cappedRegister blankRoot .empty = .ok run ∧
      run.scan = ⟨Dict.empty.set (some (lit "explicit")) 0, 1, .empty⟩ :=
    main_ok (by rw [cappedRegister, pairArgs, files]; exact List.cons_ne_nil _ _) scanning (by decide)
  have assigned : lit "arithmetic_sft_explicit" ∈ (run.registryOf .empty).assigned := by
    rw [(main_registers rfl ran).assigned, is]
    exact ⟨lit "explicit", by decide, by decide⟩
  refine ⟨run, ran, by rw [Run.opened, is]; rfl, assigned, fun registered => ?_⟩
  obtain ⟨mode, filled, -⟩ := (registered.assigned _).mp assigned
  obtain ⟨-, line, -, obj, found, -, made⟩ := written_ne_nil.mp filled
  have read := (candidate_some found).2.1
  rw [blankLoads] at read
  split at read
  · rw [← Option.some.inj read] at made
    cases made
  · cases read

end Registered

end CotCompression.Sft
