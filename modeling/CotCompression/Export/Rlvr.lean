import Mathlib.Data.Char
import Mathlib.Data.List.Lex
import Mathlib.Data.Rat.Floor
import Mathlib.Tactic.Linarith
import CotCompression.Shared.Holdout
import CotCompression.Worker.Production

set_option autoImplicit false

namespace CotCompression

open Program (Prog)
open Holdout (Apart)
open Text (lit decimal strip)

section Files

variable {κ α : Type} [DecidableEq κ]

-- Appending to a file, which is made where it is missing.
def appendTo (combine : α → α → α) (files : List (κ × α)) (path : κ) (data : α) : List (κ × α) :=
  if path ∈ files.map Prod.fst then
    files.map fun (other, before) => (other, if other = path then combine before data else before)
  else files ++ [(path, data)]

-- sorted(glob.glob(os.path.join(root, str(op), "*.jsonl")))
def globIn (files : List ((Int × Text) × α)) (op : Int) : List α :=
  let named := files.filterMap fun file =>
    if file.1.1 = op ∧ lit ".jsonl" <:+ file.1.2 ∧ file.1.2.head? ≠ some '.' then some (file.1.2, file.2) else none
  (named.mergeSort fun first second => decide (first.1 ≤ second.1)).map Prod.snd

-- collect_files
def collectIn (files : List ((Int × Text) × α)) (opMin opMax maxFilesPerOp : Int) : List α :=
  (List.range (opMax + 1 - opMin).toNat).flatMap fun index : Nat =>
    sliceTo (globIn files (opMin + index)) maxFilesPerOp

end Files

abbrev Files := List ((Int × Text) × List Record)

-- open(filename, "a")
def Files.append (files : Files) (path : Int × Text) (records : List Record) : Files :=
  appendTo (· ++ ·) files path records

def fileName (op : Int) (force : Bool) (identifier : Int) : Text :=
  lit "simple_op" ++ decimal op ++ lit "_force_" ++ (if force then lit "True" else lit "False") ++ lit "_" ++
    decimal identifier ++ lit ".jsonl"

def writeItems (args : Args) (identifier : Int) (items : List (List Record)) (files : Files) : Files :=
  (args.listoperations.zip items).foldl
    (fun files (op, records) => files.append (op, fileName op args.force identifier) records) files

inductive Written : Files → Prop
  | empty : Written []
  | run {files : Files} (before : Written files) (pyHash : Text → Int) (args : Args)
      (numPerWorker identifier : Int) (rounds : Nat) (output : List (List (List Record)))
      (quota : args.numPerWorker = .ok numPerWorker) (known : 0 ≤ identifier ∧ identifier < args.numprocs)
      (returned : (workFunction pyHash args numPerWorker identifier rounds).Returns (some output)) :
      Written (output.foldl (fun files items => writeItems args identifier items files) files)

structure RlvrRecord where
  dataSource : Text
  role : Text
  content : Text
  style : Text
  groundTruth : Text
  index : Nat
  op : Int
  mode : Text
  deriving DecidableEq

def prompt (item : Record) : Text := strip (strip item.problem ++ lit " " ++ strip item.question)

def toRecord (item : Record) (idx : Nat) (dataSource : Text) : Option RlvrRecord :=
  (extractGroundTruth item.solution).map fun gt =>
    { dataSource, role := lit "user", content := prompt item, style := lit "rule", groundTruth := gt,
      index := idx, op := item.op, mode := item.mode }

def collectFiles (files : Files) (opMin opMax maxFilesPerOp : Int) : List (List Record) :=
  collectIn files opMin opMax maxFilesPerOp

-- A record is numbered by the records before it.
def collectRecords (dataSource : Text) : List Record → List RlvrRecord → List RlvrRecord
  | [], records => records
  | item :: items, records =>
    match toRecord item records.length dataSource with
    | some rec => collectRecords dataSource items (records ++ [rec])
    | none => collectRecords dataSource items records

-- int(x)
def truncate (x : ℚ) : Int := if 0 ≤ x then ⌊x⌋ else ⌈x⌉

def nVal (records : List RlvrRecord) (valFrac : ℚ) : Int := max 1 (truncate (records.length * valFrac))

-- records[:n_val] and records[n_val:]
def valSplit (records : List RlvrRecord) (valFrac : ℚ) : List RlvrRecord :=
  sliceTo records (nVal records valFrac)

def trainSplit (records : List RlvrRecord) (valFrac : ℚ) : List RlvrRecord :=
  sliceFrom records (nVal records valFrac)

-- Without files main exits.
def prepare (files : Files) (opMin opMax maxFilesPerOp : Int) (dataSource : Text) :
    Option (List RlvrRecord) :=
  let paths := collectFiles files opMin opMax maxFilesPerOp
  if paths = [] then none else some (collectRecords dataSource paths.flatten [])

def HeldOut (records : List RlvrRecord) (valFrac : ℚ) : Prop :=
  Apart RlvrRecord.content (valSplit records valFrac) (trainSplit records valFrac)

def usable (items : List Record) : List Record :=
  items.filter fun item => (extractGroundTruth item.solution).isSome

section Records

variable {dataSource : Text} {items : List Record} {records : List RlvrRecord} {valFrac : ℚ}

theorem collectRecords_contents (before : List RlvrRecord) :
    (collectRecords dataSource items before).map RlvrRecord.content =
      before.map RlvrRecord.content ++ (usable items).map prompt := by
  induction items generalizing before with
  | nil => simp [collectRecords, usable]
  | cons item items ih =>
    rw [collectRecords, toRecord]
    cases found : extractGroundTruth item.solution with
    | none =>
      have skipped : usable (item :: items) = usable items := by simp [usable, found]
      rw [skipped]
      exact ih before
    | some gt =>
      have kept : usable (item :: items) = item :: usable items := by simp [usable, found]
      rw [kept, Option.map_some]
      simp [ih]

theorem nVal_cut (records : List RlvrRecord) (valFrac : ℚ) :
    ∃ cut : Nat, nVal records valFrac = cut ∧ 1 ≤ cut ∧ valSplit records valFrac = records.take cut ∧
      trainSplit records valFrac = records.drop cut := by
  have low : 1 ≤ nVal records valFrac := le_max_left _ _
  obtain ⟨cut, is⟩ := Int.eq_ofNat_of_zero_le (by omega : 0 ≤ nVal records valFrac)
  refine ⟨cut, is, by omega, ?_, ?_⟩ <;>
    simp only [valSplit, trainSplit, sliceTo, sliceFrom, sliceIndex, is] <;>
    rw [if_neg (by omega), Int.toNat_natCast]

theorem nVal_perm {shuffled : List RlvrRecord} (perm : shuffled.Perm records) :
    nVal shuffled valFrac = nVal records valFrac := by
  rw [nVal, nVal, perm.length_eq]

theorem all_validation_iff (nonneg : 0 ≤ valFrac) (atMost : valFrac ≤ 1) (many : 2 ≤ records.length) :
    (records.length : Int) ≤ nVal records valFrac ↔ valFrac = 1 := by
  have size : (0 : ℚ) < records.length := by exact_mod_cast (by omega : 0 < records.length)
  rw [nVal, truncate, if_pos (mul_nonneg size.le nonneg), le_max_iff]
  constructor
  · rintro (one | floor)
    · omega
    · have reached : (records.length : ℚ) ≤ records.length * valFrac := by
        exact_mod_cast Int.le_floor.mp floor
      have whole : 1 ≤ valFrac := by
        by_contra below
        have less := mul_lt_mul_of_pos_left (not_le.mp below) size
        linarith
      exact le_antisymm atMost whole
  · rintro rfl
    right
    simp

theorem heldOut_records_iff (records : List RlvrRecord) (nonneg : 0 ≤ valFrac) (atMost : valFrac ≤ 1) :
    (∀ shuffled, shuffled.Perm records → HeldOut shuffled valFrac) ↔
      (records.map RlvrRecord.content).Nodup ∨ valFrac = 1 := by
  obtain ⟨cut, is, positive, _⟩ := nVal_cut records valFrac
  have split : (∀ shuffled, shuffled.Perm records → HeldOut shuffled valFrac) ↔
      ∀ shuffled : List RlvrRecord, shuffled.Perm records →
        Apart RlvrRecord.content (shuffled.take cut) (shuffled.drop cut) := by
    refine forall₂_congr fun shuffled perm => ?_
    obtain ⟨cut', is', _, val, train⟩ := nVal_cut shuffled valFrac
    have same : cut' = cut := by
      have equal := @nVal_perm records valFrac shuffled perm
      omega
    rw [HeldOut, val, train, same]
  have whole : records.length ≤ cut ↔ (records.length : Int) ≤ nVal records valFrac := by omega
  rw [split, Holdout.apart_iff positive, whole]
  by_cases many : 2 ≤ records.length
  · rw [all_validation_iff nonneg atMost many]
  · have distinct : (records.map RlvrRecord.content).Nodup := by
      match records, many with
      | [], _ => simp
      | [_], _ => simp
      | _ :: _ :: _, many => exact absurd (by simp) many
    exact ⟨fun _ => .inl distinct, fun _ => .inl distinct⟩

theorem prepare_contents {files : Files} {opMin opMax maxFilesPerOp : Int}
    (prepared : prepare files opMin opMax maxFilesPerOp dataSource = some records) :
    records.map RlvrRecord.content =
      (usable (collectFiles files opMin opMax maxFilesPerOp).flatten).map prompt := by
  simp only [prepare] at prepared
  split at prepared
  · cases prepared
  · rw [← Option.some.inj prepared, collectRecords_contents]
    rfl

end Records

-- The validation set is held out whatever the shuffle exactly when the usable items have pairwise
-- distinct prompts, or everything is validation.
theorem heldOut_iff {files : Files} {opMin opMax maxFilesPerOp : Int} {dataSource : Text}
    {records : List RlvrRecord} {valFrac : ℚ} (nonneg : 0 ≤ valFrac) (atMost : valFrac ≤ 1)
    (prepared : prepare files opMin opMax maxFilesPerOp dataSource = some records) :
    (∀ shuffled, shuffled.Perm records → HeldOut shuffled valFrac) ↔
      ((usable (collectFiles files opMin opMax maxFilesPerOp).flatten).map prompt).Nodup ∨ valFrac = 1 := by
  rw [heldOut_records_iff records nonneg atMost, prepare_contents prepared]

theorem collectFiles_single {op : Int} {name : Text} (jsonl : lit ".jsonl" <:+ name)
    (visible : name.head? ≠ some '.') (items : List Record) :
    collectFiles [((op, name), items)] op op 1 = [items] := by
  have one : (op + 1 - op).toNat = 1 := by omega
  have found : globIn [((op, name), items)] op = [items] := by
    simp [globIn, jsonl, visible]
  simp [collectFiles, collectIn, found, sliceTo, sliceIndex]

def doubled : Record where
  problem := lit "The number of cats equals 1."
  question := lit "What is the number of cats?"
  solution := lit "Define cats as AB; so AB = 1. Answer: 1."
  op := 0
  id := 0
  template := lit "simple_chain"
  mode := lit "forward"
  length := lit "zero_context"
  d := 1

theorem heldOut_iff_doubled : ∃ records,
    prepare [((0, lit "a.jsonl"), [doubled, doubled])] 0 0 1 (lit "reasoning-compression") = some records ∧
      ¬ ∀ shuffled, shuffled.Perm records → HeldOut shuffled (1 / 50) := by
  have collected := @collectFiles_single 0 (lit "a.jsonl") (by decide) (by decide) [doubled, doubled]
  refine ⟨_, by rw [prepare, collected]; rfl, ?_⟩
  rw [heldOut_iff (by norm_num) (by norm_num) (by rw [prepare, collected]; rfl), collected]
  rintro (distinct | whole)
  · exact absurd distinct (by decide +kernel)
  · norm_num at whole

theorem chainBlock_prompts {modes : List Text} {op : Int} {block : List Record}
    (chain : ChainBlock modes op block) (several : 2 ≤ modes.length) :
    ¬ ((usable block).map prompt).Nodup := by
  obtain ⟨named, problem, question, answer, each⟩ := chain
  have all : usable block = block := by
    refine List.filter_eq_self.mpr fun item member => ?_
    rw [(each item member).2.2.2]
    rfl
  have same : ∀ item ∈ block, prompt item = strip (strip problem ++ lit " " ++ strip question) := by
    intro item member
    rw [prompt, (each item member).1, (each item member).2.1]
  rw [← named, List.length_map] at several
  rw [all, List.map_congr_left same, List.map_const', List.nodup_replicate]
  omega

theorem runSampling_returns {α : Type} {loop : Sampling α} {identifier : Int} {rounds : Nat}
    {items : List (List Record)} :
    (runSampling loop identifier rounds).Returns (some items) ↔ ∃ final,
      (Prog.iterate loop.pass rounds loop.start).Returns (.inr final) ∧ items = final.items := by
  simp only [runSampling, Prog.returns_bind, returns_seed, true_and]
  constructor
  · rintro ⟨_, state | final, ended, returned⟩
    · cases (Prog.returns_pure _ _).mp returned
    · exact ⟨final, ended, Option.some.inj ((Prog.returns_pure _ _).mp returned)⟩
  · rintro ⟨final, ended, rfl⟩
    exact ⟨(), _, ended, (Prog.returns_pure _ _).mpr rfl⟩

def leakArgs : Args :=
  { pairArgs with
    mod := 23
    numberRange := 5
    listoperations := [2]
    total := 1
    numprocs := 1
    allNests := some [2]
    listoperations_filled := by decide
    allNests_filled := nofun }

theorem leakArgs_returns : ∃ block,
    ChainBlock [lit "explicit", lit "composed-nest2", lit "implicit-nest2"] 2 block ∧
      (workFunction (fun _ => 0) leakArgs 1 0 1).Returns (some [[block]]) := by
  have meets := @variantSampling_meetsQuota (fun _ => 0) leakArgs 1 [2]
    (fun op member => by
      obtain rfl := List.mem_singleton.mp member
      exact generateChain_safe (by decide) (by decide) (by decide) (by decide))
    (by decide) (by decide) le_rfl
  obtain ⟨result, ended⟩ := exists_returns (meets.safe 1)
  obtain ⟨final, rfl, _, length, ops⟩ := meets.leaves 1 result (by decide) ended
  obtain ⟨blocks, count, each, found⟩ := ops 0 2 rfl
  obtain ⟨block, rfl⟩ := List.length_eq_one_iff.mp count
  obtain ⟨items, is⟩ := List.length_eq_one_iff.mp length
  rw [is] at found
  obtain rfl : items = [block].flatten := Option.some.inj found
  rw [List.flatten_singleton] at is
  have ran : (runSampling (variantSampling (fun _ => 0) leakArgs 1 [2]) 0 1).Returns (some [block]) :=
    runSampling_returns.mpr ⟨final, ended, is.symm⟩
  exact ⟨block, each block (by simp), (Prog.returns_bind _ _ _).mpr ⟨_, ran, rfl⟩⟩

theorem leakArgs_writes : ∃ block,
    ChainBlock [lit "explicit", lit "composed-nest2", lit "implicit-nest2"] 2 block ∧
      Written [((2, lit "simple_op2_force_True_0.jsonl"), block)] := by
  obtain ⟨block, chain, returned⟩ := leakArgs_returns
  exact ⟨block, chain, .run .empty (fun _ => 0) leakArgs 1 0 1 [[block]] rfl (by decide) returned⟩

theorem variants_leak : ∃ files records, Written files ∧
    prepare files 2 2 1 (lit "reasoning-compression") = some records ∧
    ∃ shuffled, shuffled.Perm records ∧ ¬ HeldOut shuffled (1 / 50) := by
  obtain ⟨block, chain, written⟩ := leakArgs_writes
  have collected := @collectFiles_single 2 (lit "simple_op2_force_True_0.jsonl") (by decide) (by decide) block
  have prepared : prepare [((2, lit "simple_op2_force_True_0.jsonl"), block)] 2 2 1
      (lit "reasoning-compression") =
        some (collectRecords (lit "reasoning-compression") [block].flatten []) := by
    rw [prepare, collected]
    rfl
  refine ⟨_, _, written, prepared, ?_⟩
  by_contra kept
  have held : ∀ shuffled, shuffled.Perm (collectRecords (lit "reasoning-compression") [block].flatten []) →
      HeldOut shuffled (1 / 50) := fun shuffled perm => by
    by_contra leaks
    exact kept ⟨shuffled, perm, leaks⟩
  rcases (heldOut_records_iff _ (by norm_num) (by norm_num)).mp held with distinct | whole
  · rw [prepare_contents prepared, collected, List.flatten_singleton] at distinct
    exact chainBlock_prompts chain (by decide) distinct
  · norm_num at whole

end CotCompression
