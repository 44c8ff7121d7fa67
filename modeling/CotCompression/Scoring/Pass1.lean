import CotCompression.Export.Solved
import CotCompression.Scoring.Agreement
import CotCompression.Scoring.Exact
import CotCompression.Scoring.Robust
import CotCompression.Shared.Counter
import CotCompression.Shared.Reordering

set_option autoImplicit false

namespace CotCompression

open Text (lit decimal strip rstripDots)
open Json (Value)
open Jsonl (rows)

inductive EvalError where
  | systemExit (message : Text)
  | read (error : ReadError)
  | python (error : PyError)
  deriving DecidableEq

-- bool(value); a float that is spelled other than zero counts as one.
def truthy : Value → Bool
  | .null => false
  | .bool value => value
  | .int n => decide (n ≠ 0)
  | .float spelling => !(spelling.takeWhile fun c => c != 'e' && c != 'E').all fun c => c == '-' || c == '0' || c == '.'
  | .string text => !text.isEmpty
  | .array items => !items.isEmpty
  | .object fields => !fields.isEmpty

-- row.get(key) or "", of which strip() is asked next
def fieldAt (row : Value) (key : Text) : Except ReadError Text := do
  match ← getOrNone row key with
  | .string text => return text
  | value => if truthy value then .error .attributeError else return []

def textAt (row : Value) (key : Text) : Except ReadError Text := (fieldAt row key).map strip

-- get_gold on a decoded row: a field is read where those before it give no answer.
def goldOf (row : Value) : Except EvalError Text := do
  let ans ← (fieldAt row (lit "answer")).mapError .read
  let sol ← if strip ans ≠ [] then .ok [] else (fieldAt row (lit "solution")).mapError .read
  let text ← if strip ans ≠ [] ∨ answerMarker <:+: strip sol then .ok [] else (fieldAt row (lit "text")).mapError .read
  (getGold ⟨some ans, some sol, some text⟩).mapError .python

def messages (systemPrompt pq : Text) : List (Text × Text) :=
  (if systemPrompt = [] then [] else [(lit "system", systemPrompt)]) ++ [(lit "user", pq)]

-- `spelled` is str() of a value that is no plain one.
structure Model where
  template : Option (List (Text × Text) → Text)
  generate : List Text → List (Text × Nat)
  spelled : Value → Text

def buildPrompt (template : List (Text × Text) → Text) (systemPrompt : Text) (row : Value) :
    Except EvalError Text := do
  let problem ← (textAt row (lit "problem")).mapError .read
  let question ← (textAt row (lit "question")).mapError .read
  return template (messages systemPrompt (strip (problem ++ lit " " ++ question)))

-- str(row.get("op", "unknown"))
def opName (spelled : Value → Text) (row : Value) : Except ReadError Text :=
  match row with
  | .object fields =>
    match fields.lookup (lit "op") with
    | none => .ok (lit "unknown")
    | some (.string text) => .ok text
    | some (.int n) => .ok (decimal n)
    | some .null => .ok (lit "None")
    | some (.bool true) => .ok (lit "True")
    | some (.bool false) => .ok (lit "False")
    | some value => .ok (spelled value)
  | _ => .error .attributeError

structure Generation where
  op : Text
  problem : Text
  question : Text
  goldAnswer : Text
  genAnswer : Text
  genText : Text
  respTokens : Nat
  exactMatch : Int

def generationFields (g : Generation) : List (Text × Value) :=
  [(lit "op", .string g.op), (lit "problem", .string g.problem), (lit "question", .string g.question),
    (lit "gold_answer", .string g.goldAnswer), (lit "gen_answer", .string g.genAnswer),
    (lit "gen_text", .string g.genText), (lit "resp_tokens", .int g.respTokens),
    (lit "exact_match", .int g.exactMatch)]

def judge (spelled : Value → Text) (row : Value) (cand : Text × Nat) : Except EvalError Generation := do
  let pred := strip (extractAnswer cand.1)
  let gold ← goldOf row
  let op ← (opName spelled row).mapError .read
  let problem ← (textAt row (lit "problem")).mapError .read
  let question ← (textAt row (lit "question")).mapError .read
  return {
    op
    problem
    question
    goldAnswer := gold
    genAnswer := pred
    genText := strip cand.1
    respTokens := cand.2
    exactMatch := exactMatch pred gold }

structure Tally where
  perOpTotal : Dict Text Int
  perOpCorrect : Dict Text Int
  perOpRespTokens : Dict Text Int
  total : Int
  correct : Int
  respTokensSum : Int
  records : List Generation

def Tally.start : Tally := ⟨.empty, .empty, .empty, 0, 0, 0, []⟩

def Tally.add (tally : Tally) (g : Generation) : Tally where
  perOpTotal := tally.perOpTotal.add g.op 1
  perOpCorrect := tally.perOpCorrect.add g.op g.exactMatch
  perOpRespTokens := tally.perOpRespTokens.add g.op g.respTokens
  total := tally.total + 1
  correct := tally.correct + g.exactMatch
  respTokensSum := tally.respTokensSum + g.respTokens
  records := tally.records ++ [g]

-- (part / whole) if whole else 0.0
def share (part whole : Int) : ℚ := if whole = 0 then 0 else part / whole

structure OpMetrics where
  count : Int
  correct : Int
  accuracy : ℚ
  avgResponseLen : ℚ
  deriving DecidableEq

structure Metrics where
  checkpoint : Text
  data : Text
  count : Int
  correct : Int
  passAt1 : ℚ
  avgResponseLen : ℚ
  perOp : List (Text × OpMetrics)
  deriving DecidableEq

-- sorted(keys)
def sortedKeys (keys : List Text) : List Text := keys.mergeSort fun first second => decide (first ≤ second)

def Tally.opMetrics (tally : Tally) (op : Text) : OpMetrics where
  count := tally.perOpTotal.getD op 0
  correct := tally.perOpCorrect.getD op 0
  accuracy := share (tally.perOpCorrect.getD op 0) (tally.perOpTotal.getD op 0)
  avgResponseLen := share (tally.perOpRespTokens.getD op 0) (tally.perOpTotal.getD op 0)

def Tally.metrics (tally : Tally) (ckpt data : Text) : Metrics where
  checkpoint := ckpt
  data := data
  count := tally.total
  correct := tally.correct
  passAt1 := share tally.correct tally.total
  avgResponseLen := share tally.respTokensSum tally.total
  perOp := (sortedKeys tally.perOpTotal.keys).map fun op => (op, tally.opMetrics op)

structure Evaluation where
  metrics : Metrics
  generations : Text

def generationsText (records : List Generation) : Text :=
  (rows false (records.map generationFields)).flatMap fun line => line ++ ['\n']

structure EvalArgs where
  ckpt : Text
  data : Text
  systemPrompt : Text

def evaluate (model : Model) (args : EvalArgs) (text : Text) : Except EvalError Evaluation := do
  match Jsonl.read text with
  | none => .error (.read .jsonDecodeError)
  | some rows =>
    if rows = [] then .error (.systemExit (lit "No rows loaded from " ++ args.data))
    else
      match model.template with
      | none =>
        .error (.systemExit (lit "Tokenizer at " ++ args.ckpt ++ lit " has no chat_template. " ++
          lit "Provide a model whose tokenizer_config.json includes one."))
      | some template =>
        let prompts ← rows.mapM (buildPrompt template args.systemPrompt)
        let tally ← (rows.zip (model.generate prompts)).foldlM
          (fun tally (row, cand) => do return tally.add (← judge model.spelled row cand)) Tally.start
        return ⟨tally.metrics args.ckpt args.data, generationsText tally.records⟩

def solvedOf (records : List Generation) : Int := records.countP fun g => decide (g.exactMatch = 1)

def tokensOf (records : List Generation) : Int := (records.map fun g => (g.respTokens : Int)).sum

def recountOp (records : List Generation) (op : Text) : OpMetrics :=
  let mine := records.filter fun g => decide (g.op = op)
  { count := mine.length
    correct := solvedOf mine
    accuracy := share (solvedOf mine) mine.length
    avgResponseLen := share (tokensOf mine) mine.length }

def recount (ckpt data : Text) (records : List Generation) : Metrics where
  checkpoint := ckpt
  data := data
  count := records.length
  correct := solvedOf records
  passAt1 := share (solvedOf records) records.length
  avgResponseLen := share (tokensOf records) records.length
  perOp := (sortedKeys (records.map Generation.op).dedup).map fun op => (op, recountOp records op)

section Recount

variable {records : List Generation} {tally : Tally}

def Judged (records : List Generation) : Prop := ∀ g ∈ records, g.exactMatch = 0 ∨ g.exactMatch = 1

theorem Judged.sum (judged : Judged records) : (records.map Generation.exactMatch).sum = solvedOf records := by
  induction records with
  | nil => rfl
  | cons g records ih =>
    obtain ⟨first, judged⟩ := List.forall_mem_cons.mp judged
    rw [List.map_cons, List.sum_cons, ih judged, solvedOf, solvedOf, List.countP_cons]
    rcases first with wrong | right
    · simp [wrong]
    · simp [right, Int.add_comm]

theorem Judged.filter (judged : Judged records) (op : Text) : Judged (records.filter fun g => decide (g.op = op)) :=
  fun g member => judged g (List.mem_filter.mp member).1

theorem solvedOf_bounds (records : List Generation) : 0 ≤ solvedOf records ∧ solvedOf records ≤ records.length := by
  have most : records.countP (fun g => decide (g.exactMatch = 1)) ≤ records.length := List.countP_le_length
  rw [solvedOf]
  omega

theorem tally_fold (records : List Generation) (tally : Tally) :
    records.foldl Tally.add tally = {
      perOpTotal := Dict.sums Generation.op (fun _ => 1) records tally.perOpTotal
      perOpCorrect := Dict.sums Generation.op Generation.exactMatch records tally.perOpCorrect
      perOpRespTokens := Dict.sums Generation.op (fun g => (g.respTokens : Int)) records tally.perOpRespTokens
      total := tally.total + records.length
      correct := tally.correct + (records.map Generation.exactMatch).sum
      respTokensSum := tally.respTokensSum + tokensOf records
      records := tally.records ++ records } := by
  induction records generalizing tally with
  | nil => simp [Dict.sums, tokensOf]
  | cons g records ih =>
    rw [List.foldl_cons, ih]
    simp only [Tally.add, Dict.sums, List.foldl_cons, List.length_cons, List.map_cons, List.sum_cons, tokensOf,
      List.append_assoc, List.singleton_append, Tally.mk.injEq, true_and, and_true]
    refine ⟨?_, ?_, ?_⟩ <;> omega

theorem length_filter_sum (op : Text) :
    Dict.sumAt Generation.op (fun _ => 1) records op = (records.filter fun g => decide (g.op = op)).length := by
  simp [Dict.sumAt]

theorem tally_opMetrics (judged : Judged records) (op : Text) :
    (records.foldl Tally.add Tally.start).opMetrics op = recountOp records op := by
  have zero : (Dict.empty : Dict Text Int).getD op 0 = 0 := rfl
  have correct : Dict.sumAt Generation.op Generation.exactMatch records op =
      solvedOf (records.filter fun g => decide (g.op = op)) := (judged.filter op).sum
  have tokens : Dict.sumAt Generation.op (fun g => (g.respTokens : Int)) records op =
      tokensOf (records.filter fun g => decide (g.op = op)) := rfl
  rw [tally_fold]
  simp only [Tally.opMetrics, Tally.start, Dict.getD_sums, zero, Int.zero_add, length_filter_sum, correct, tokens,
    recountOp]

theorem tally_keys (records : List Generation) :
    sortedKeys (records.foldl Tally.add Tally.start).perOpTotal.keys = sortedKeys (records.map Generation.op).dedup := by
  have distinct := (records.foldl Tally.add Tally.start).perOpTotal.distinct
  refine Reordering.sorted_perm id ?_ (by rw [List.map_id]; exact distinct)
  refine (List.perm_ext_iff_of_nodup distinct (List.nodup_dedup _)).mpr fun op => ?_
  rw [List.mem_dedup, ← Dict.keys, tally_fold, Dict.mem_keys_sums]
  simp [Tally.start]

theorem tally_metrics (judged : Judged records) (ckpt data : Text) :
    (records.foldl Tally.add Tally.start).metrics ckpt data = recount ckpt data records := by
  have whole := tally_fold records Tally.start
  have keys := tally_keys records
  have each := funext fun op => congrArg (Prod.mk op) (tally_opMetrics judged op)
  rw [Tally.metrics, keys, each, whole, judged.sum]
  simp [recount, Tally.start]

theorem sortedKeys_nodup {keys : List Text} (distinct : keys.Nodup) : (sortedKeys keys).Nodup :=
  (List.mergeSort_perm keys _).nodup_iff.mpr distinct

theorem sortedKeys_increasing {keys : List Text} (distinct : keys.Nodup) : (sortedKeys keys).Pairwise (· < ·) := by
  have apart : (sortedKeys keys).Pairwise (· ≠ ·) := sortedKeys_nodup distinct
  exact ((Reordering.sorted_pairwise id keys).and apart).imp fun both => lt_of_le_of_ne both.1 both.2

theorem recount_ops (ckpt data : Text) (records : List Generation) :
    (recount ckpt data records).perOp.map Prod.fst = sortedKeys (records.map Generation.op).dedup := by
  rw [recount, List.map_map]
  exact List.map_id _

theorem recount_sum (amount : Generation → Int) (records : List Generation) :
    ((sortedKeys (records.map Generation.op).dedup).map (Dict.sumAt Generation.op amount records)).sum =
      (records.map amount).sum := by
  refine Dict.sum_groups (sortedKeys_nodup (List.nodup_dedup _)) amount records fun g member => ?_
  exact List.mem_mergeSort.mpr (List.mem_dedup.mpr (List.mem_map_of_mem member))

end Recount

section Runs

variable {model : Model} {args : EvalArgs} {text : Text} {run : Evaluation} {records : List Generation}

theorem generationFields_exact (g : Generation) : (Value.object (generationFields g)).Exact := by
  have keys : ([lit "op", lit "problem", lit "question", lit "gold_answer", lit "gen_answer", lit "gen_text",
      lit "resp_tokens", lit "exact_match"] : List Text).Nodup := by decide
  exact ⟨keys, trivial, trivial, trivial, trivial, trivial, trivial, trivial, trivial, trivial⟩

theorem read_generationsText (records : List Generation) :
    Jsonl.read (generationsText records) = some (records.map fun g => .object (generationFields g)) := by
  have exact : ∀ fields ∈ records.map generationFields, (Value.object fields).Exact := by
    intro fields member
    obtain ⟨g, -, rfl⟩ := List.mem_map.mp member
    exact generationFields_exact g
  rw [Jsonl.read, generationsText, ← List.append_nil (List.flatMap _ _), Jsonl.solidLines_rows exact,
    show Jsonl.solidLines [] = [] from rfl, List.append_nil, Jsonl.loads_rows exact, List.map_map]
  rfl

theorem foldlM_add {α ε : Type} (f : α → Except ε Generation) (xs : List α) (tally : Tally) :
    xs.foldlM (fun tally x => do return tally.add (← f x)) tally =
      (xs.mapM f).map fun records => records.foldl Tally.add tally := by
  induction xs generalizing tally with
  | nil => rfl
  | cons x xs ih =>
    rw [List.foldlM_cons, List.mapM_cons]
    cases f x with
    | error error => rfl
    | ok g =>
      rw [ok_bind]
      change (xs.foldlM _ (tally.add g)) = _
      rw [ih]
      cases xs.mapM f <;> rfl

theorem judge_judged {spelled : Value → Text} {row : Value} {cand : Text × Nat} {g : Generation}
    (made : judge spelled row cand = .ok g) : g.exactMatch = 0 ∨ g.exactMatch = 1 := by
  simp only [judge, bind_eq_ok] at made
  obtain ⟨gold, -, op, -, problem, -, question, -, same⟩ := made
  obtain rfl := Except.ok.inj same
  exact exactMatch_cases _ _

def JudgedAs (model : Model) (rows : List Value) (prompts : List Text) (records : List Generation) : Prop :=
  List.Forall₂ (fun entry g => judge model.spelled entry.1 entry.2 = .ok g) (rows.zip (model.generate prompts)) records

theorem JudgedAs.judged {rows : List Value} {prompts : List Text} (judged : JudgedAs model rows prompts records) :
    Judged records := by
  intro g member
  obtain ⟨index, within, rfl⟩ := List.getElem_of_mem member
  exact judge_judged (judged.get (judged.length_eq ▸ within) within)

theorem forall₂_mapM {α β ε : Type} {f : α → Except ε β} {xs : List α} {ys : List β}
    (each : List.Forall₂ (fun x y => f x = .ok y) xs ys) : xs.mapM f = .ok ys := by
  induction each with
  | nil => rfl
  | cons here _ ih =>
    rw [List.mapM_cons, here, ok_bind, ih]
    rfl

theorem evaluate_ok : evaluate model args text = .ok run ↔ ∃ rows template prompts records,
    Jsonl.read text = some rows ∧ rows ≠ [] ∧ model.template = some template ∧
      rows.mapM (buildPrompt template args.systemPrompt) = .ok prompts ∧ JudgedAs model rows prompts records ∧
      run = ⟨recount args.ckpt args.data records, generationsText records⟩ := by
  have written (records : List Generation) (judged : Judged records) :
      (⟨(records.foldl Tally.add Tally.start).metrics args.ckpt args.data,
        generationsText (records.foldl Tally.add Tally.start).records⟩ : Evaluation) =
          ⟨recount args.ckpt args.data records, generationsText records⟩ := by
    have kept : (records.foldl Tally.add Tally.start).records = records := by rw [tally_fold]; rfl
    rw [tally_metrics judged, kept]
  constructor
  · intro ran
    rw [evaluate] at ran
    cases read : Jsonl.read text with
    | none => rw [read] at ran; cases ran
    | some rows =>
      rw [read] at ran
      by_cases empty : rows = []
      · simp [empty] at ran
      · simp only [if_neg empty] at ran
        cases known : model.template with
        | none => rw [known] at ran; cases ran
        | some template =>
          rw [known] at ran
          simp only [bind_eq_ok, foldlM_add] at ran
          obtain ⟨prompts, built, tally, looped, same⟩ := ran
          cases made : (rows.zip (model.generate prompts)).mapM fun entry => judge model.spelled entry.1 entry.2 with
          | error error => rw [made] at looped; cases looped
          | ok records =>
            rw [made] at looped
            obtain rfl := Except.ok.inj looped
            have judged : JudgedAs model rows prompts records := mapM_forall₂ made
            refine ⟨rows, template, prompts, records, rfl, empty, rfl, built, judged, ?_⟩
            rw [← written records judged.judged]
            exact (Except.ok.inj same).symm
  · rintro ⟨rows, template, prompts, records, read, filled, known, built, judged, rfl⟩
    rw [evaluate, read]
    simp only [if_neg filled, known, built, ok_bind, foldlM_add]
    rw [forall₂_mapM judged, ← written records judged.judged]
    rfl

end Runs

section Workers

-- An answer the tolerance of exact_match tells from every other integer.
def Fine (answer : Int) : Prop := |answer| < 10 ^ 8 - 1

theorem exactMatch_fine {a : Int} (fine : Fine a) (b : Int) :
    exactMatch (decimal a) (decimal b) = if a = b then 1 else 0 := by
  have near : Near a b ↔ a = b := by
    rw [near_int, Fine] at *
    constructor
    · rintro (same | near)
      · exact same
      · by_contra differ
        have apart : 1 ≤ |a - b| := Int.one_le_abs (sub_ne_zero.mpr differ)
        have triangle := abs_sub_abs_le_abs_sub b a
        rw [abs_sub_comm b a] at triangle
        omega
    · exact .inl
  rw [exactMatch_near (isLiteral_decimal a) (isLiteral_decimal b)]
  simp only [near]

theorem decimal_inj {a b : Int} : decimal a = decimal b ↔ a = b :=
  ⟨fun same => by rw [← Text.intOf_decimal a, same, Text.intOf_decimal], fun same => by rw [same]⟩

theorem goldOf_item (item : Record) :
    goldOf (.object (itemFields item)) = (getGold ⟨none, some item.solution, none⟩).mapError .python := by
  have ans : fieldAt (.object (itemFields item)) (lit "answer") = .ok [] := rfl
  have sol : fieldAt (.object (itemFields item)) (lit "solution") = .ok item.solution := rfl
  have text : fieldAt (.object (itemFields item)) (lit "text") = .ok [] := rfl
  have blank : strip ([] : Text) = [] := rfl
  simp only [goldOf, ans, sol, text, blank, Except.mapError, ok_bind, ne_eq, not_true_eq_false, if_false,
    ite_self]
  rfl

theorem buildPrompt_item (template : List (Text × Text) → Text) (systemPrompt : Text) (item : Record) :
    buildPrompt template systemPrompt (.object (itemFields item)) =
      .ok (template (messages systemPrompt (prompt item))) := rfl

theorem judge_item {spelled : Value → Text} {item : Record} {cand : Text × Nat} {gold answer : Int}
    (told : Solution item.solution gold) (response : Solution cand.1 answer) (fine : Fine answer) :
    ∃ g, judge spelled (.object (itemFields item)) cand = .ok g ∧ g.exactMatch = if answer = gold then 1 else 0 := by
  have known : goldOf (.object (itemFields item)) = .ok (decimal gold) := by
    rw [goldOf_item, getGold_solution told none]
    rfl
  have named : opName spelled (.object (itemFields item)) = .ok (decimal item.op) := rfl
  have problem : textAt (.object (itemFields item)) (lit "problem") = .ok (strip item.problem) := rfl
  have question : textAt (.object (itemFields item)) (lit "question") = .ok (strip item.question) := rfl
  refine ⟨_, by simp only [judge, known, named, problem, question, Except.mapError, ok_bind]; rfl, ?_⟩
  rw [extractAnswer_solution response, Text.strip_solid (solid_decimal answer)]
  exact exactMatch_fine fine gold

-- What the exporter keeps of an item: the prompt as the user's message and the ground truth.
def Kept (item : Record) (row : RlvrRow) : Prop :=
  row.role = lit "user" ∧ row.content = prompt item ∧
    ∃ gold, Solution item.solution gold ∧ row.groundTruth = decimal gold

theorem collectRecords_kept {dataSource : Text} {items : List Record}
    (told : ∀ item ∈ items, ∃ gold, Solution item.solution gold) (records : List RlvrRecord) : ∃ made,
    collectRecords dataSource items records = records ++ made ∧
      List.Forall₂ Kept items (made.map RlvrRecord.row) := by
  induction items generalizing records with
  | nil => exact ⟨[], by simp [collectRecords], .nil⟩
  | cons item items ih =>
    obtain ⟨⟨gold, solution⟩, told⟩ := List.forall_mem_cons.mp told
    obtain ⟨rec, row, kept⟩ : ∃ rec, toRecord item records.length dataSource = some rec ∧ Kept item rec.row := by
      rw [toRecord, extractGroundTruth_solution solution]
      exact ⟨_, rfl, rfl, rfl, gold, solution, rfl⟩
    obtain ⟨made, collected, each⟩ := ih told (records ++ [rec])
    refine ⟨rec :: made, ?_, .cons kept each⟩
    rw [collectRecords, row]
    simp [collected]

theorem file_rows {text : Text} {items : List Record} (reads : Reads text items) (dataSource : Text)
    (told : ∀ item ∈ items, ∃ gold, Solution item.solution gold) : ∃ rows,
    (Jsonl.fileLines text).foldlM (collectLine dataSource) [] = .ok rows ∧ List.Forall₂ Kept items rows := by
  obtain ⟨made, collected, each⟩ := @collectRecords_kept dataSource _ told []
  refine ⟨made.map RlvrRecord.row, ?_, each⟩
  have lines := reads.lines
  rw [Jsonl.solidLines] at lines
  rw [collectLine_solid, lines]
  have made' := collectRows dataSource items []
  rwa [collected, List.nil_append] at made'

def rowMessages (systemPrompt : Text) (row : RlvrRow) : List (Text × Text) :=
  (if systemPrompt = [] then [] else [(lit "system", systemPrompt)]) ++ [(row.role, row.content)]

theorem Kept.messages {item : Record} {row : RlvrRow} (kept : Kept item row) (systemPrompt : Text) :
    messages systemPrompt (prompt item) = rowMessages systemPrompt row := by
  rw [CotCompression.messages, rowMessages, kept.1, kept.2.1]

theorem build_items {items : List Record} {rows : List RlvrRow} (kept : List.Forall₂ Kept items rows)
    (template : List (Text × Text) → Text) (systemPrompt : Text) :
    (items.map fun item => Value.object (itemFields item)).mapM (buildPrompt template systemPrompt) =
      .ok (rows.map fun row => template (rowMessages systemPrompt row)) := by
  induction kept with
  | nil => rfl
  | cons first _ ih =>
    rw [List.map_cons, List.mapM_cons, buildPrompt_item, ok_bind, ih, ok_bind, first.messages]
    rfl

theorem judge_items {spelled : Value → Text} {items : List Record} {rows : List RlvrRow}
    {cands : List (Text × Nat)} {answers : List Int} (kept : List.Forall₂ Kept items rows)
    (responses : List.Forall₂ (fun cand answer => Solution cand.1 answer ∧ Fine answer) cands answers)
    (size : rows.length = answers.length) : ∃ records,
    List.Forall₂ (fun entry g => judge spelled entry.1 entry.2 = .ok g)
      ((items.map fun item => Value.object (itemFields item)).zip cands) records ∧ records.length = rows.length ∧
    solvedOf records = ((rows.zip answers).countP fun entry =>
      decide (entry.1.groundTruth = decimal entry.2) : Nat) := by
  induction responses generalizing items rows with
  | nil =>
    obtain rfl := List.eq_nil_of_length_eq_zero size
    obtain rfl := List.forall₂_nil_right_iff.mp kept
    exact ⟨[], .nil, rfl, rfl⟩
  | @cons cand answer cands answers response _ ih =>
    obtain ⟨row, rows, rfl⟩ := List.exists_cons_of_length_eq_add_one size
    obtain ⟨item, items, ⟨_, _, gold, solution, truth⟩, rest, rfl⟩ := List.forall₂_cons_right_iff.mp kept
    obtain ⟨g, made, verdict⟩ := @judge_item spelled _ _ _ _ solution response.1 response.2
    obtain ⟨records, each, count, solved⟩ := ih rest (by simpa using size)
    refine ⟨g :: records, .cons made each, by rw [List.length_cons, List.length_cons, count], ?_⟩
    have right : row.groundTruth = decimal answer ↔ answer = gold := by
      rw [truth, decimal_inj, eq_comm]
    rw [solvedOf, List.countP_cons, List.zip_cons_cons, List.countP_cons, Nat.cast_add, Nat.cast_add, ← solvedOf, solved]
    simp only [right, verdict]
    by_cases same : answer = gold <;> simp [same]

theorem evaluate_items {items : List Record} {rows : List RlvrRow} {text : Text} {model : Model} {args : EvalArgs}
    {template : List (Text × Text) → Text} {answers : List Int} (filled : rows ≠ [])
    (read : Jsonl.read text = some (items.map fun item => .object (itemFields item)))
    (kept : List.Forall₂ Kept items rows) (known : model.template = some template)
    (size : rows.length = answers.length)
    (responses : List.Forall₂ (fun cand answer => Solution cand.1 answer ∧ Fine answer)
      (model.generate (rows.map fun row => template (rowMessages args.systemPrompt row))) answers) :
    ∃ run, evaluate model args text = .ok run ∧ run.metrics.count = rows.length ∧
      run.metrics.correct = ((rows.zip answers).countP fun entry =>
        decide (entry.1.groundTruth = decimal entry.2) : Nat) := by
  obtain ⟨records, judged, count, solved⟩ := @judge_items model.spelled _ _ _ _ kept responses size
  refine ⟨⟨recount args.ckpt args.data records, generationsText records⟩, ?_, by rw [recount, count], solved⟩
  refine evaluate_ok.mpr ⟨_, template, _, records, read, ?_, known, build_items kept template _, judged, rfl⟩
  rintro none
  obtain rfl := List.map_eq_nil_iff.mp none
  exact filled (List.forall₂_nil_left_iff.mp kept)

theorem Ran.answered {mod : Int} {writes : List Write} (ran : Ran mod writes) {entry : (Int × Text) × Joint}
    (stored : entry ∈ jointAfter writes) : ∀ item ∈ entry.2.1, ∃ gold, Solution item.solution gold := by
  intro item member
  obtain ⟨-, data, -, -, -, solution⟩ := ran.stored _ stored item member
  exact ⟨_, solution⟩

theorem read_stored {writes : List Write} {entry : (Int × Text) × Joint} (stored : entry ∈ jointAfter writes) :
    Jsonl.read entry.2.2 = some (entry.2.1.map fun item => .object (itemFields item)) := by
  rw [Jsonl.read, (jointAfter_reads writes _ stored).lines, Jsonl.loads_rows (itemFields_each entry.2.1), List.map_map]
  rfl

def echo (items : List Record) : Model where
  template := some fun messages => messages.flatMap Prod.snd
  generate _ := items.map fun item => (item.solution, 1)
  spelled _ := []

def echoArgs : EvalArgs := ⟨lit "model", lit "test.jsonl", lit "Answer modulo 23."⟩

theorem leakArgs_answer : ∃ block, Ran 23 [⟨leakArgs, 0, [block]⟩] ∧ block.length = 3 ∧
    ∃ answer, Fine answer ∧ ∀ item ∈ block, Solution item.solution answer := by
  obtain ⟨block, ⟨modes, problem, question, truth, each⟩, returned⟩ := leakArgs_returns
  have ran : Ran 23 [⟨leakArgs, 0, [block]⟩] :=
    .run .none (fun _ => 0) leakArgs 1 0 1 [[block]] rfl (by decide) rfl returned
  have three : block.length = 3 := by simpa using congrArg List.length modes
  have told : ∀ item ∈ block, ∃ answer, Fine answer ∧ truth = decimal answer ∧ Solution item.solution answer := by
    intro item member
    obtain ⟨-, data, generated, -, -, solution⟩ := ran.told ⟨leakArgs, 0, [block]⟩ (by simp) block (by simp) item member
    obtain ⟨-, -, op, found⟩ := each item member
    have bounds := generated.answer_bounds (by decide) (by omega)
    rw [extractGroundTruth_solution solution] at found
    refine ⟨_, ?_, (Option.some.inj found).symm, solution⟩
    rw [Fine, abs_of_nonneg bounds.1]
    omega
  obtain ⟨first, member⟩ := List.exists_mem_of_length_pos (by omega : 0 < block.length)
  obtain ⟨answer, fine, is, -⟩ := told first member
  refine ⟨block, ran, three, answer, fine, fun item inside => ?_⟩
  obtain ⟨other, -, same, solution⟩ := told item inside
  rwa [decimal_inj.mp (is.symm.trans same)]

theorem echo_responses {block : List Record} {answer : Int} (fine : Fine answer)
    (solved : ∀ item ∈ block, Solution item.solution answer) (prompts : List Text) :
    List.Forall₂ (fun cand answer => Solution cand.1 answer ∧ Fine answer) ((echo block).generate prompts)
      (block.map fun _ => answer) := by
  rw [echo, List.forall₂_map_left_iff, List.forall₂_map_right_iff, List.forall₂_same]
  exact fun item member => ⟨solved item member, fine⟩

end Workers

-- A run's metrics can be counted anew from the records of its other file.
theorem pass1_recounted {model : Model} {args : EvalArgs} {text : Text} {run : Evaluation}
    (ran : evaluate model args text = .ok run) : ∃ rows template prompts records,
    Jsonl.read text = some rows ∧ model.template = some template ∧
      rows.mapM (buildPrompt template args.systemPrompt) = .ok prompts ∧ JudgedAs model rows prompts records ∧
      Jsonl.read run.generations = some (records.map fun g => .object (generationFields g)) ∧
      run.metrics = recount args.ckpt args.data records ∧
      (run.metrics.perOp.map Prod.fst).Pairwise (· < ·) ∧
      (∀ op, op ∈ run.metrics.perOp.map Prod.fst ↔ ∃ g ∈ records, g.op = op) ∧
      (run.metrics.perOp.map fun entry => entry.2.count).sum = run.metrics.count ∧
      (run.metrics.perOp.map fun entry => entry.2.correct).sum = run.metrics.correct ∧
      0 ≤ run.metrics.correct ∧ run.metrics.correct ≤ run.metrics.count := by
  obtain ⟨rows, template, prompts, records, read, -, known, built, judged, rfl⟩ := evaluate_ok.mp ran
  refine ⟨rows, template, prompts, records, read, known, built, judged, read_generationsText records, rfl, ?_, ?_,
    ?_, ?_, solvedOf_bounds records⟩
  · rw [recount_ops]
    exact sortedKeys_increasing (List.nodup_dedup _)
  · intro op
    rw [recount_ops, sortedKeys, List.mem_mergeSort, List.mem_dedup, List.mem_map]
  · have counts := recount_sum (fun _ => 1) records
    have each : Dict.sumAt Generation.op (fun _ => 1) records =
        fun op => ((records.filter fun g => decide (g.op = op)).length : Int) := funext length_filter_sum
    rw [each] at counts
    simpa [recount, recountOp, Function.comp_def] using counts
  · have solved := recount_sum Generation.exactMatch records
    have each : Dict.sumAt Generation.op Generation.exactMatch records =
        fun op => solvedOf (records.filter fun g => decide (g.op = op)) := funext fun op => (judged.judged.filter op).sum
    rw [each, judged.judged.sum] at solved
    simpa [recount, recountOp, Function.comp_def] using solved

theorem pass1_recounted_leak : ∃ block run, evaluate (echo block) echoArgs (itemsText block) = .ok run ∧
    (run.metrics.perOp.map fun entry => entry.2.count).sum = 3 := by
  obtain ⟨block, ran, three, answer, fine, solved⟩ := leakArgs_answer
  have read : Jsonl.read (itemsText block) = some (block.map fun item => .object (itemFields item)) := by
    rw [Jsonl.read, (reads_itemsText block).lines, Jsonl.loads_rows (itemFields_each block), List.map_map]
    rfl
  obtain ⟨rows, -, kept⟩ := file_rows (reads_itemsText block) [] fun item member => ⟨answer, solved item member⟩
  have size := kept.length_eq
  obtain ⟨run, made, count, -⟩ := @evaluate_items block rows _ (echo block) echoArgs _ (block.map fun _ => answer)
    (by rintro rfl; rw [three] at size; cases size) read kept rfl (by simp [size])
    (echo_responses fine solved _)
  obtain ⟨_, _, _, _, -, -, -, -, -, -, -, -, shared, -⟩ := pass1_recounted made
  exact ⟨block, run, made, by rw [shared, count, ← size, three]; rfl⟩

-- On any file of the workers the engine is asked with the messages of the rows prepare_rlvr_data
-- makes of it, and of responses that are solutions of any chain just those that show a row's ground
-- truth count.
theorem pass1_workers {mod : Int} {writes : List Write} (ran : Ran mod writes) {path : Int × Text} {text : Text}
    (file : (path, text) ∈ diskAfter writes) (dataSource : Text) : ∃ items rows,
    Jsonl.read text = some items ∧ (Jsonl.fileLines text).foldlM (collectLine dataSource) [] = .ok rows ∧
    rows.length = items.length ∧
    (∀ template systemPrompt, items.mapM (buildPrompt template systemPrompt) =
      .ok (rows.map fun row => template (rowMessages systemPrompt row))) ∧
    ∀ (model : Model) (args : EvalArgs) (template : List (Text × Text) → Text) (answers : List Int), rows ≠ [] →
      model.template = some template → rows.length = answers.length →
      List.Forall₂ (fun cand answer => Solution cand.1 answer ∧ Fine answer)
        (model.generate (rows.map fun row => template (rowMessages args.systemPrompt row))) answers →
      ∃ run, evaluate model args text = .ok run ∧ run.metrics.count = rows.length ∧
        run.metrics.correct = ((rows.zip answers).countP fun entry =>
          decide (entry.1.groundTruth = decimal entry.2) : Nat) := by
  rw [diskAfter_eq] at file
  obtain ⟨⟨path, items, text⟩, inside, same⟩ := List.mem_map.mp file
  obtain ⟨rfl, rfl⟩ := Prod.mk.inj same
  obtain ⟨rows, collected, kept⟩ := file_rows (jointAfter_reads writes _ inside) dataSource (ran.answered inside)
  refine ⟨_, rows, read_stored inside, collected, by rw [List.length_map, kept.length_eq],
    fun template systemPrompt => build_items kept template systemPrompt,
    fun model args template answers filled known size responses => ?_⟩
  exact evaluate_items filled (read_stored inside) kept known size responses

theorem pass1_workers_leak : ∃ (block : List Record) (items : List Value) (rows : List RlvrRow) (run : Evaluation),
    Ran 23 [⟨leakArgs, 0, [block]⟩] ∧ Jsonl.read (itemsText block) = some items ∧
    items.mapM (buildPrompt (List.flatMap Prod.snd) (lit "Answer modulo 23.")) =
      .ok (rows.map fun row => lit "Answer modulo 23." ++ row.content) ∧
    evaluate (echo block) echoArgs (itemsText block) = .ok run ∧ run.metrics.count = 3 ∧ run.metrics.correct = 3 := by
  obtain ⟨block, ran, three, answer, fine, solved⟩ := leakArgs_answer
  have disk : diskAfter [⟨leakArgs, 0, [block]⟩] = [((2, lit "simple_op2_force_True_0.jsonl"), itemsText block)] := rfl
  obtain ⟨items, rows, read, collected, -, asked, runs⟩ :=
    pass1_workers ran (by rw [disk]; exact List.mem_singleton.mpr rfl) []
  obtain ⟨others, again, kept⟩ := file_rows (reads_itemsText block) [] fun item member => ⟨answer, solved item member⟩
  obtain rfl := Except.ok.inj (collected.symm.trans again)
  have size := kept.length_eq
  obtain ⟨run, made, count, correct⟩ := runs (echo block) echoArgs _ (block.map fun _ => answer)
    (by rintro rfl; rw [three] at size; cases size) rfl (by simp [size]) (echo_responses fine solved _)
  have prompts := asked (List.flatMap Prod.snd) (lit "Answer modulo 23.")
  have behind : (fun row => (rowMessages (lit "Answer modulo 23.") row).flatMap Prod.snd) =
      fun row : RlvrRow => lit "Answer modulo 23." ++ row.content := by
    funext row
    rw [rowMessages, if_neg (by decide)]
    simp
  rw [behind] at prompts
  refine ⟨block, items, rows, run, ran, read, prompts, made, by rw [count, ← size, three]; rfl, ?_⟩
  rw [correct, List.countP_eq_length.mpr fun entry member => ?_, List.length_zip, List.length_map, ← size, three]
  · rfl
  · have among := List.of_mem_zip member
    obtain ⟨_, -, same⟩ := List.mem_map.mp among.2
    obtain ⟨item, inside, _, _, gold, solution, truth⟩ := forall₂_mem_right kept among.1
    have own := extractGroundTruth_solution (solved item inside)
    rw [extractGroundTruth_solution solution] at own
    rw [decide_eq_true_eq, ← same, truth]
    exact Option.some.inj own

end CotCompression
