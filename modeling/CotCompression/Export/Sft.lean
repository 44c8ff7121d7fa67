import Mathlib.Data.Char
import Mathlib.Data.List.Lex
import CotCompression.Generator.Python
import CotCompression.Shared.Json

set_option autoImplicit false

open Json (Value)

namespace CotCompression.Sft

open Text (lit decimal strip)

inductive Fault where
  | systemExit (message : Text)
  | attributeError
  | typeError
  deriving DecidableEq

structure Path where
  parts : List Text
  proper : ∀ part ∈ parts, part ≠ [] ∧ part ≠ lit "." ∧ '/' ∉ part
  deriving DecidableEq

structure Slug where
  text : Text
  flat : '/' ∉ text
  deriving DecidableEq

-- mode.replace("/", "_")
def slug (mode : Text) : Slug where
  text := mode.map fun c => if c = '/' then '_' else c
  flat := by
    rw [List.mem_map]
    rintro ⟨c, -, same⟩
    split at same
    · exact absurd same (by decide)
    · next other => exact other same

-- None has no replace.
def safeModeSlug : Option Text → Except Fault Slug
  | some mode => .ok (slug mode)
  | none => .error .attributeError

def dataPath (outputDir : Path) (slug : Slug) : Path where
  parts := outputDir.parts ++ [slug.text ++ lit ".jsonl"]
  proper := by
    intro part member
    rcases List.mem_append.mp member with member | member
    · exact outputDir.proper part member
    · obtain rfl := List.mem_singleton.mp member
      refine ⟨by simp [lit], fun same => ?_, ?_⟩
      · have lengths := congrArg List.length same
        simp [lit] at lengths
      · rw [List.mem_append]
        exact not_or.mpr ⟨slug.flat, by decide⟩

inductive Field where
  | absent
  | null
  | str (text : Text)
  deriving DecidableEq

-- (obj.get(field) or "").strip()
def Field.stripped : Field → Text
  | .absent => []
  | .null => []
  | .str text => strip text

structure Obj where
  mode : Field
  problem : Field
  question : Field
  solution : Field
  deriving DecidableEq

-- obj.get("mode", "unknown")
def Obj.modeOf (obj : Obj) : Option Text :=
  match obj.mode with
  | .absent => some (lit "unknown")
  | .null => none
  | .str mode => some mode

structure SftRecord where
  instruction : Text
  output : Text
  system : Text
  deriving DecidableEq

structure Args where
  outputDir : Path
  opMin : Int
  opMax : Int
  modes : Option (List Text)
  maxSamplesPerMode : Option Int
  register : Bool
  infoDir : Path
  datasetPrefix : Text
  overwrite : Bool
  systemPrompt : Text

structure InputFile where
  name : Text
  lines : List Text

structure DataRoot where
  name : Text
  plain : Int → Option (List InputFile)
  zeroContext : Int → Option (List InputFile)

-- sorted(base.glob("*.jsonl")), if base.is_dir()
def globJsonl (base : Option (List InputFile)) : List InputFile :=
  ((base.getD []).filter fun file => decide (lit ".jsonl" <:+ file.name)).mergeSort fun first second =>
    decide (first.name ≤ second.name)

def findInputFiles (dataRoot : DataRoot) (opMin opMax : Int) : List (Int × InputFile) :=
  (List.range (opMax + 1 - opMin).toNat).flatMap fun index : Nat =>
    let op := opMin + index
    (globJsonl (dataRoot.plain op) ++ globJsonl (dataRoot.zeroContext op)).map fun path => (op, path)

def sftFields (rec : SftRecord) : List (Text × Value) :=
  [(lit "instruction", .string rec.instruction), (lit "output", .string rec.output), (lit "system", .string rec.system)]

-- json.dumps(rec, ensure_ascii=False)
def dumps (rec : SftRecord) : Text := Json.dumps false (.object (sftFields rec))

structure Writer where
  path : Path
  text : Text

def Writer.write (writer : Writer) (text : Text) : Writer := { writer with text := writer.text ++ text }

/-- Mode None is none. -/
structure Scan where
  counts : Dict (Option Text) Nat
  skipped : Nat
  writers : Dict (Option Text) Writer

def Scan.start : Scan := ⟨.empty, 0, .empty⟩

def getWriter (args : Args) (writers : Dict (Option Text) Writer) (mode : Option Text) :
    Except Fault Writer :=
  match writers.get? mode with
  | some writer => .ok writer
  | none => do
    let slug ← safeModeSlug mode
    return ⟨dataPath args.outputDir slug, []⟩

-- mode_filter and mode not in mode_filter
def filteredOut (args : Args) (mode : Option Text) : Bool :=
  match args.modes with
  | none => false
  | some modes => !modes.isEmpty && !modes.any fun other => decide (mode = some other)

def full (args : Args) (count : Nat) : Bool :=
  match args.maxSamplesPerMode with
  | none => false
  | some cap => decide (cap ≤ count)

-- Only a run with a cap reads counts[mode] here.
def readCount (args : Args) (counts : Dict (Option Text) Nat) (mode : Option Text) :
    Dict (Option Text) Nat :=
  if args.maxSamplesPerMode.isSome then counts.touch mode 0 else counts

def Obj.record (args : Args) (obj : Obj) : Option SftRecord :=
  let problem := obj.problem.stripped
  let question := obj.question.stripped
  let solution := obj.solution.stripped
  if problem = [] ∨ question = [] ∨ solution = [] then none
  else some { instruction := problem ++ lit " " ++ question, output := solution, system := args.systemPrompt }

def scanObject (args : Args) (scan : Scan) (obj : Obj) : Except Fault Scan :=
  let mode := obj.modeOf
  let counts := readCount args scan.counts mode
  if full args (counts.getD mode 0) then .ok { scan with counts }
  else
    match obj.record args with
    | none => .ok { scan with counts, skipped := scan.skipped + 1 }
    | some rec => do
      let writer ← getWriter args scan.writers mode
      return {
        counts := counts.set mode (counts.getD mode 0 + 1)
        skipped := scan.skipped
        writers := scan.writers.set mode (writer.write (dumps rec ++ ['\n'])) }

-- `loads` is none where json.loads raises JSONDecodeError.
def scanLine (loads : Text → Option Obj) (args : Args) (scan : Scan) (line : Text) : Except Fault Scan :=
  let line := strip line
  if line = [] then .ok scan
  else
    match loads line with
    | none => .ok { scan with skipped := scan.skipped + 1 }
    | some obj => if filteredOut args obj.modeOf then .ok scan else scanObject args scan obj

def scanFiles (loads : Text → Option Obj) (args : Args) (files : List (Int × InputFile)) : Except Fault Scan :=
  files.foldlM (fun scan (_, path) => path.lines.foldlM (scanLine loads args) scan) Scan.start

-- sorted(counts.items()); None and a string are not ordered.
def sortedCounts (counts : Dict (Option Text) Nat) : Except Fault (List (Option Text × Nat)) :=
  if none ∈ counts.keys ∧ 2 ≤ counts.keys.length then .error .typeError
  else .ok (counts.entries.mergeSort fun first second => decide (first.1.getD [] ≤ second.1.getD []))

-- str(path)
def Path.text (path : Path) : Text := '/' :: ['/'].intercalate path.parts

def relativeText (parts : List Text) : Text := if parts = [] then lit "." else ['/'].intercalate parts

-- str(data_path.relative_to(info_dir)), or str(data_path) where that raises ValueError
def relativeName (infoDir path : Path) : Text :=
  if infoDir.parts <+: path.parts then relativeText (path.parts.drop infoDir.parts.length) else path.text

def entryName (args : Args) (slug : Slug) : Text := args.datasetPrefix ++ lit "_" ++ slug.text

def datasetEntry (fileName : Text) : Value :=
  .object [(lit "file_name", .string fileName), (lit "formatting", .string (lit "alpaca")),
    (lit "columns", .object [(lit "prompt", .string (lit "instruction")),
      (lit "response", .string (lit "output")), (lit "system", .string (lit "system"))])]

structure Registry where
  assigned : List Text
  info : Dict Text Value

def registerMode (args : Args) (registry : Registry) (mode : Option Text) : Except Fault Registry := do
  let slug ← safeModeSlug mode
  let name := entryName args slug
  let entry := datasetEntry (relativeName args.infoDir (dataPath args.outputDir slug))
  return ⟨registry.assigned ++ [name], registry.info.set name entry⟩

def registerModes (args : Args) (counts : Dict (Option Text) Nat) (info : Dict Text Value) :
    Except Fault Registry :=
  counts.keys.foldlM (registerMode args) ⟨[], info⟩

structure Run where
  scan : Scan
  registry : Option Registry

-- `info` holds the entries of dataset_info.json before the run.
def main (loads : Text → Option Obj) (args : Args) (dataRoot : DataRoot) (info : Dict Text Value) :
    Except Fault Run := do
  let files := findInputFiles dataRoot args.opMin args.opMax
  if files.isEmpty then
    .error (.systemExit (lit "No input files under " ++ dataRoot.name ++ lit " for op " ++
      decimal args.opMin ++ lit "-" ++ decimal args.opMax))
  else
    let scan ← scanFiles loads args files
    let _ ← sortedCounts scan.counts
    if args.register && !scan.counts.keys.isEmpty then
      let registry ← registerModes args scan.counts info
      return ⟨scan, some registry⟩
    else return ⟨scan, none⟩

def Run.opened (run : Run) : List Path := run.scan.writers.entries.map fun entry => entry.2.path

-- What two writers leave in one file depends on their buffers.
def Run.file (overlaid : Text → List Text → Text) (args : Args) (before : Path → Option Text) (run : Run)
    (path : Path) : Option Text :=
  let base := if args.overwrite then [] else (before path).getD []
  match (run.scan.writers.entries.map Prod.snd).filter fun writer => writer.path = path with
  | [] => before path
  | [writer] => some (base ++ writer.text)
  | writers => some (overlaid base (writers.map Writer.text))

end CotCompression.Sft
