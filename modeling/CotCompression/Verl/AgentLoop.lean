import CotCompression.Scoring.Reward
import CotCompression.Verl.BatchBalance

set_option autoImplicit false

namespace CotCompression.Verl

open Text (decimal lit)

variable {ι : Type}

inductive StepError where
  | reward (error : PyError)
  | driver (error : Error)
  | attributeError
  | indexError
  | runtimeError

inductive PaddingSide where
  | left
  | right

/-- The tokenizer and the engine, asked in a call by a worker for one of its rows; `pad` is tokenizer.pad, with ids
and attention mask where it makes tensors. -/
structure Model where
  promptIds : Text → List Nat
  generate : Nat → Nat → Nat → List Nat → List Nat
  decode : List Nat → Text
  pad : PaddingSide → Nat → List Nat → Option (List Nat × List Nat)

structure Model.Pads (model : Model) (padTokenId : Nat) : Prop where
  left : ∀ (width : Nat) (ids : List Nat), ids ≠ [] → ids.length ≤ width → model.pad .left width ids =
    some (List.replicate (width - ids.length) padTokenId ++ ids,
      List.replicate (width - ids.length) 0 ++ List.replicate ids.length 1)
  right : ∀ (width : Nat) (ids : List Nat), ids ≠ [] → ids.length ≤ width → model.pad .right width ids =
    some (ids ++ List.replicate (width - ids.length) padTokenId,
      List.replicate ids.length 1 ++ List.replicate (width - ids.length) 0)

structure Sample (ι : Type) where
  uid : ι
  dataSource : Text
  rawPrompt : Text
  groundTruth : Text

structure RolloutConfig where
  promptLength : Nat
  responseLength : Nat
  n : Nat
  numWorkers : Nat

structure AgentLoopOutput where
  promptIds : List Nat
  responseIds : List Nat
  responseMask : List Nat

structure InternalAgentLoopOutput where
  rawPrompt : Text
  promptIds : List Nat
  responseIds : List Nat
  responseMask : List Nat
  attentionMask : List Nat
  rewardScore : ℚ

structure Generated where
  rawPrompt : Text
  prompts : List Nat
  responses : List Nat
  responseMask : List Nat
  attentionMask : List Nat
  rmScores : List ℚ
  acc : ℚ

-- DataProto.chunk of a batch that is not padded
def chunk {α : Type} (rows : List α) (chunks : Nat) : Except Error (List (List α)) :=
  if chunks = 0 then .error .zeroDivisionError
  else do
    require (rows.length % chunks = 0)
      (lit "only support equal chunk. Got size of DataProto " ++ decimal rows.length ++ lit " and chunk " ++
        decimal chunks ++ lit ".")
    return chunkRows rows chunks

-- torch.cat along the rows, which are to be of one width
def torchCat {α : Type} (rows : List (List α)) : Except StepError Unit :=
  match rows with
  | [] => .error .runtimeError
  | row :: rows => if rows.all fun other => other.length == row.length then .ok () else .error .runtimeError

-- SingleTurnAgentLoop.run
def runAgentLoop (model : Model) (responseLength call worker i : Nat) (rawPrompt : Text) : AgentLoopOutput :=
  let promptIds := model.promptIds rawPrompt
  let tokenIds := model.generate call worker i promptIds
  { promptIds := promptIds
    responseIds := tokenIds.take responseLength
    responseMask := (List.replicate tokenIds.length 1).take responseLength }

-- A list that comes back as it is has no dim.
def padded (model : Model) (side : PaddingSide) (maxLength : Nat) (inputIds : List Nat) :
    Except StepError (List Nat × List Nat) :=
  match model.pad side maxLength inputIds with
  | some tensors => .ok tensors
  | none => .error .attributeError

-- The product of two rows; one of a single entry is stretched.
def product (xs ys : List Nat) : Except StepError (List Nat) :=
  if xs.length = ys.length then .ok (List.zipWith (· * ·) xs ys)
  else
    match xs, ys with
    | [x], ys => .ok (ys.map (x * ·))
    | xs, [y] => .ok (xs.map (· * y))
    | _, _ => .error .runtimeError

-- xs[-count:]
def lastRows {α : Type} (xs : List α) (count : Nat) : List α := if count = 0 then xs else xs.drop (xs.length - count)

-- run_single of the naive reward manager, on the one row that is not padded
def runSingle (model : Model) (output : AgentLoopOutput) (groundTruth : Text) : Except StepError ℚ :=
  let attentionMask := List.replicate (output.promptIds ++ output.responseIds).length 1
  let validResponseLength := (lastRows attentionMask output.responseIds.length).sum
  (computeScore (model.decode (output.responseIds.take validResponseLength)) groundTruth).mapError .reward

def agentLoopPostprocess (model : Model) (config : RolloutConfig) (sample : Sample ι) (output : AgentLoopOutput) :
    Except StepError InternalAgentLoopOutput := do
  let (promptIds, promptAttention) ← padded model .left config.promptLength output.promptIds
  let (responseIds, responseAttention) ← padded model .right config.responseLength output.responseIds
  let (mask, _) ← padded model .right config.responseLength output.responseMask
  let responseMask ← product mask responseAttention
  let rewardScore ← runSingle model output sample.groundTruth
  return {
    rawPrompt := sample.rawPrompt
    promptIds
    responseIds
    responseMask
    attentionMask := promptAttention ++ responseAttention
    rewardScore }

-- xs[index] = value, where an index below zero counts from the end
def assign (xs : List ℚ) (index : Int) (value : ℚ) : Except StepError (List ℚ) :=
  let place := if index < 0 then index + xs.length else index
  if 0 ≤ place ∧ place < xs.length then .ok (xs.set place.toNat value) else .error .indexError

-- rm_scores of a row: the score goes to the last token of the response.
def rmScores (promptLength : Nat) (input : InternalAgentLoopOutput) : Except StepError (List ℚ) :=
  let responseLength : Int := (input.attentionMask.drop promptLength).sum - 1
  assign (List.replicate input.responseMask.length 0) responseLength input.rewardScore

def scoredRow (input : InternalAgentLoopOutput) : Except StepError Generated := do
  let scores ← rmScores input.promptIds.length input
  return {
    rawPrompt := input.rawPrompt
    prompts := input.promptIds
    responses := input.responseIds
    responseMask := input.responseMask
    attentionMask := input.attentionMask
    rmScores := scores
    acc := input.rewardScore }

def postprocess (inputs : List InternalAgentLoopOutput) : Except StepError (List Generated) := do
  torchCat (inputs.map InternalAgentLoopOutput.promptIds)
  torchCat (inputs.map InternalAgentLoopOutput.responseIds)
  torchCat (inputs.map InternalAgentLoopOutput.responseMask)
  torchCat (inputs.map InternalAgentLoopOutput.attentionMask)
  inputs.mapM scoredRow

-- AgentLoopWorker.generate_sequences
def generateOnWorker (model : Model) (config : RolloutConfig) (call : Nat) (batch : List (Sample ι)) (worker : Nat) :
    Except StepError (List Generated) := do
  let outputs ← batch.zipIdx.mapM fun (sample, i) =>
    agentLoopPostprocess model config sample (runAgentLoop model config.responseLength call worker i sample.rawPrompt)
  postprocess outputs

-- DataProto.concat
def concat (outputs : List (List Generated)) : Except StepError (List Generated) := do
  torchCat (outputs.flatten.map Generated.prompts)
  torchCat (outputs.flatten.map Generated.responses)
  torchCat (outputs.flatten.map Generated.responseMask)
  torchCat (outputs.flatten.map Generated.attentionMask)
  torchCat (outputs.flatten.map Generated.rmScores)
  return outputs.flatten

-- AgentLoopManager.generate_sequences
def generateSequences (model : Model) (config : RolloutConfig) (call : Nat) (prompts : List (Sample ι)) :
    Except StepError (List Generated) := do
  let chunkes ← (chunk prompts config.numWorkers).mapError .driver
  let outputs ← chunkes.zipIdx.mapM fun (batch, worker) => generateOnWorker model config call batch worker
  concat outputs

section Scores

variable {marker : List (Char → Bool)}

theorem findall_marked {t : Text} {m : Pattern.Match} (member : m ∈ (markerPattern marker numberPattern).findall t) :
    pyInt (group1 m) = .ok (Text.intOf (group1 m)) := by
  obtain ⟨u, found⟩ := Pattern.first_of_mem_findall member
  rw [markerPattern_first] at found
  obtain ⟨rest, -, found⟩ := Option.bind_eq_some_iff.mp found
  obtain ⟨⟨run, after⟩, read, rfl⟩ := Option.map_eq_some_iff.mp found
  exact pyInt_run read

theorem findall_number {t : Text} {m : Pattern.Match} (member : m ∈ numberPattern.findall t) :
    pyInt m.text = .ok (Text.intOf m.text) := by
  obtain ⟨u, found⟩ := Pattern.first_of_mem_findall member
  rw [numberPattern_first] at found
  obtain ⟨⟨run, after⟩, read, rfl⟩ := Option.map_eq_some_iff.mp found
  exact pyInt_run read

theorem extract_total (text : Text) : ∃ pred, extract text = .ok pred := by
  rw [extract]
  split
  · next m found =>
    rw [findall_marked (List.mem_of_getLast? found)]
    exact ⟨_, rfl⟩
  · split
    · next m found =>
      rw [findall_number (List.mem_of_getLast? found)]
      exact ⟨_, rfl⟩
    · exact ⟨_, rfl⟩

-- The number the reward reads in a text is that of the ground truth, modulo 23.
def Right (text groundTruth : Text) : Prop :=
  ∃ pred truth, extract text = .ok (some pred) ∧ pyInt groundTruth = .ok truth ∧ pred % rewardMod = truth % rewardMod

theorem computeScore_right {text groundTruth : Text} {truth : Int} (read : pyInt groundTruth = .ok truth) :
    ∃ score, computeScore text groundTruth = .ok score ∧ (score = 0 ∨ score = 1) ∧
      (score = 1 ↔ Right text groundTruth) := by
  obtain ⟨pred, found⟩ := extract_total text
  rw [computeScore, found, ok_bind]
  cases pred with
  | none =>
    refine ⟨0, rfl, .inl rfl, fun one => absurd one (by decide), ?_⟩
    rintro ⟨pred, -, same, -⟩
    rw [found] at same
    cases same
  | some pred =>
    simp only [read, ok_bind]
    refine ⟨_, rfl, (ite_eq_or_eq _ _ _).symm, ⟨fun one => ?_, ?_⟩⟩
    · refine ⟨pred, truth, found, read, ?_⟩
      by_contra wrong
      rw [if_neg wrong] at one
      exact absurd one (by decide)
    · rintro ⟨other, known, same, gold, right⟩
      rw [found] at same
      rw [read] at gold
      cases same
      cases gold
      exact if_pos right

end Scores

def Generated.answerMask (g : Generated) : List Nat := g.attentionMask.drop g.prompts.length

def Generated.answerIds (g : Generated) : List Nat := g.responses.take g.answerMask.sum

def Model.answer (model : Model) (g : Generated) : Text := model.decode g.answerIds

structure Generated.Wide (config : RolloutConfig) (g : Generated) : Prop where
  prompts : g.prompts.length = config.promptLength
  responses : g.responses.length = config.responseLength
  responseMask : g.responseMask.length = config.responseLength
  attentionMask : g.attentionMask.length = config.promptLength + config.responseLength
  rmScores : g.rmScores.length = config.responseLength

structure Rewarded (model : Model) (config : RolloutConfig) (sample : Sample ι) (g : Generated) : Prop where
  prompt : g.rawPrompt = sample.rawPrompt
  wide : g.Wide config
  answer : ∃ call worker i, g.answerIds =
    (model.generate call worker i (model.promptIds sample.rawPrompt)).take config.responseLength
  unpadded : g.answerMask =
    List.replicate g.answerIds.length 1 ++ List.replicate (config.responseLength - g.answerIds.length) 0
  masked : g.responseMask = g.answerMask
  score : computeScore (model.answer g) sample.groundTruth = .ok g.rmScores.sum
  acc : g.acc = g.rmScores.sum

structure Answered (model : Model) (config : RolloutConfig) (samples : List (Sample ι)) : Prop where
  pads : ∃ padTokenId, model.Pads padTokenId
  room : 1 ≤ config.responseLength
  prompts : ∀ sample ∈ samples, model.promptIds sample.rawPrompt ≠ [] ∧
    (model.promptIds sample.rawPrompt).length ≤ config.promptLength
  answers : ∀ sample ∈ samples, ∀ call worker i, model.generate call worker i (model.promptIds sample.rawPrompt) ≠ []

def Readable (samples : List (Sample ι)) : Prop := ∀ sample ∈ samples, ∃ truth, pyInt sample.groundTruth = .ok truth

theorem Answered.of_subset {model : Model} {config : RolloutConfig} {samples others : List (Sample ι)}
    (answered : Answered model config samples) (inside : others ⊆ samples) : Answered model config others where
  pads := answered.pads
  room := answered.room
  prompts sample member := answered.prompts sample (inside member)
  answers sample member := answered.answers sample (inside member)

section Tensors

variable {α : Type} {width : Nat}

theorem torchCat_ok {rows : List (List α)} (filled : rows ≠ []) (same : ∀ row ∈ rows, row.length = width) :
    torchCat rows = .ok () := by
  obtain ⟨row, rows, rfl⟩ := List.exists_cons_of_ne_nil filled
  obtain ⟨first, same⟩ := List.forall_mem_cons.mp same
  rw [torchCat, if_pos]
  rw [List.all_eq_true]
  intro other member
  rw [same other member, first, beq_self_eq_true]

theorem assign_ok {xs : List ℚ} {index : Nat} (within : index < xs.length) (value : ℚ) :
    assign xs index value = .ok (xs.set index value) := by
  have place : ¬ (index : Int) < 0 := by omega
  simp only [assign, if_neg place]
  rw [if_pos (by omega), Int.toNat_natCast]

theorem sum_set_zero {n i : Nat} (inside : i < n) (score : ℚ) :
    ((List.replicate n (0 : ℚ)).set i score).sum = score := by
  induction n generalizing i with
  | zero => omega
  | succ n ih =>
    cases i with
    | zero => simp [List.replicate_succ]
    | succ i => simp [List.replicate_succ, ih (by omega : i < n)]

theorem product_mask (n more pad : Nat) :
    product (List.replicate n 1 ++ List.replicate more pad) (List.replicate n 1 ++ List.replicate more 0) =
      .ok (List.replicate n 1 ++ List.replicate more 0) := by
  unfold product
  rw [if_pos (by simp), List.zipWith_append (by simp)]
  simp

theorem chunk_ok {α : Type} {rows : List α} {chunks : Nat} (positive : 1 ≤ chunks) (divides : chunks ∣ rows.length) :
    chunk rows chunks = .ok (chunkRows rows chunks) := by
  rw [chunk, if_neg (by omega), require_ok.mpr (Nat.mod_eq_zero_of_dvd divides)]
  rfl

end Tensors

theorem mapM_related {α β γ ε : Type} {f : β → Except ε γ} {R : α → γ → Prop} {xs : List α} {ys : List β}
    (each : List.Forall₂ (fun x y => ∃ z, f y = .ok z ∧ R x z) xs ys) :
    ∃ zs, ys.mapM f = .ok zs ∧ List.Forall₂ R xs zs := by
  induction each with
  | nil => exact ⟨[], rfl, .nil⟩
  | cons here _ ih =>
    obtain ⟨z, made, holds⟩ := here
    obtain ⟨zs, others, hold⟩ := ih
    refine ⟨z :: zs, ?_, .cons holds hold⟩
    rw [List.mapM_cons, made, ok_bind, others]
    rfl

theorem torchCat_column {α β γ : Type} {R : α → β → Prop} {xs : List α} {ys : List β} {column : β → List γ}
    {width : Nat} (filled : xs ≠ []) (each : List.Forall₂ R xs ys)
    (same : ∀ x y, R x y → (column y).length = width) : torchCat (ys.map column) = .ok () := by
  have some : ys ≠ [] := by
    rintro rfl
    exact filled (List.forall₂_nil_right_iff.mp each)
  refine @torchCat_ok _ width _ (mt List.map_eq_nil_iff.mp some) fun row member => ?_
  obtain ⟨y, among, rfl⟩ := List.mem_map.mp member
  obtain ⟨x, -, related⟩ := forall₂_mem_right each among
  exact same x y related

section Generation

variable {model : Model} {config : RolloutConfig}

theorem runSingle_eq (output : AgentLoopOutput) (groundTruth : Text) :
    runSingle model output groundTruth =
      (computeScore (model.decode output.responseIds) groundTruth).mapError .reward := by
  have valid : output.responseIds.take
      (lastRows (List.replicate (output.promptIds ++ output.responseIds).length 1) output.responseIds.length).sum =
        output.responseIds := by
    by_cases empty : output.responseIds = []
    · simp [empty]
    · have some : output.responseIds.length ≠ 0 := by simpa using empty
      rw [lastRows, if_neg some, List.drop_replicate, List.length_replicate, List.length_append]
      simp
  simp only [runSingle, valid]

structure Padded (model : Model) (config : RolloutConfig) (sample : Sample ι) (input : InternalAgentLoopOutput)
    (ids : List Nat) : Prop where
  prompt : input.rawPrompt = sample.rawPrompt
  wide : input.promptIds.length = config.promptLength
  answer : ∃ call worker i,
    ids = (model.generate call worker i (model.promptIds sample.rawPrompt)).take config.responseLength
  filled : ids ≠ []
  responses : ∃ padTokenId, input.responseIds = ids ++ List.replicate (config.responseLength - ids.length) padTokenId
  mask : input.responseMask = List.replicate ids.length 1 ++ List.replicate (config.responseLength - ids.length) 0
  attention : ∃ front, front.length = config.promptLength ∧ input.attentionMask = front ++ input.responseMask
  score : computeScore (model.decode ids) sample.groundTruth = .ok input.rewardScore

theorem Padded.short {sample : Sample ι} {input : InternalAgentLoopOutput} {ids : List Nat}
    (padded : Padded model config sample input ids) : 1 ≤ ids.length ∧ ids.length ≤ config.responseLength := by
  obtain ⟨_, _, _, same⟩ := padded.answer
  refine ⟨List.length_pos_iff.mpr padded.filled, ?_⟩
  rw [same, List.length_take]
  exact Nat.min_le_left _ _

theorem agentLoopPostprocess_ok {samples : List (Sample ι)} (answered : Answered model config samples)
    {sample : Sample ι} (member : sample ∈ samples) (call worker i : Nat) {truth : Int}
    (read : pyInt sample.groundTruth = .ok truth) :
    ∃ input ids, agentLoopPostprocess model config sample
      (runAgentLoop model config.responseLength call worker i sample.rawPrompt) = .ok input ∧
        Padded model config sample input ids := by
  obtain ⟨padTokenId, pads⟩ := answered.pads
  obtain ⟨some, fits⟩ := answered.prompts sample member
  have answers := answered.answers sample member call worker i
  generalize output : runAgentLoop model config.responseLength call worker i sample.rawPrompt = agent
  have prompt : agent.promptIds = model.promptIds sample.rawPrompt := by rw [← output]; rfl
  have ids : agent.responseIds =
      (model.generate call worker i (model.promptIds sample.rawPrompt)).take config.responseLength := by
    rw [← output]
    rfl
  have mask : agent.responseMask = List.replicate agent.responseIds.length 1 := by
    rw [ids, List.length_take, ← output]
    exact List.take_replicate
  have filled : agent.responseIds ≠ [] := by
    have room := answered.room
    rw [ids, ne_eq, List.take_eq_nil_iff]
    exact fun none => none.elim (by omega) answers
  have masked : List.replicate agent.responseIds.length 1 ≠ [] := by simpa using filled
  have short : agent.responseIds.length ≤ config.responseLength := by
    rw [ids, List.length_take]
    exact Nat.min_le_left _ _
  obtain ⟨score, scored, -⟩ := @computeScore_right (model.decode agent.responseIds) _ _ read
  have single : runSingle model agent sample.groundTruth = .ok score := by
    rw [runSingle_eq, scored]
    rfl
  have left := pads.left config.promptLength agent.promptIds (prompt ▸ some) (prompt ▸ fits)
  have right := pads.right config.responseLength agent.responseIds filled short
  have again := pads.right config.responseLength agent.responseMask (mask ▸ masked)
    (by rw [mask, List.length_replicate]; exact short)
  rw [mask, List.length_replicate] at again
  have made : agentLoopPostprocess model config sample agent = .ok {
      rawPrompt := sample.rawPrompt
      promptIds := List.replicate (config.promptLength - agent.promptIds.length) padTokenId ++ agent.promptIds
      responseIds :=
        agent.responseIds ++ List.replicate (config.responseLength - agent.responseIds.length) padTokenId
      responseMask := List.replicate agent.responseIds.length 1 ++
        List.replicate (config.responseLength - agent.responseIds.length) 0
      attentionMask := (List.replicate (config.promptLength - agent.promptIds.length) 0 ++
        List.replicate agent.promptIds.length 1) ++ (List.replicate agent.responseIds.length 1 ++
          List.replicate (config.responseLength - agent.responseIds.length) 0)
      rewardScore := score } := by
    rw [agentLoopPostprocess, mask]
    simp only [padded, left, right, again, ok_bind, product_mask, single]
    rfl
  have width : config.promptLength - agent.promptIds.length + agent.promptIds.length = config.promptLength :=
    Nat.sub_add_cancel (prompt ▸ fits)
  exact ⟨_, agent.responseIds, made, rfl, by simpa using width, ⟨call, worker, i, ids⟩, filled, ⟨padTokenId, rfl⟩, rfl,
    ⟨_, by simpa using width, rfl⟩, scored⟩

section Padded

variable {sample : Sample ι} {input : InternalAgentLoopOutput} {ids : List Nat}

theorem Padded.widths (padded : Padded model config sample input ids) :
    input.responseIds.length = config.responseLength ∧ input.responseMask.length = config.responseLength ∧
      input.attentionMask.length = config.promptLength + config.responseLength := by
  obtain ⟨some, short⟩ := padded.short
  obtain ⟨front, width, split⟩ := padded.attention
  obtain ⟨padTokenId, responses⟩ := padded.responses
  have size : input.responseMask.length = config.responseLength := by
    rw [padded.mask, List.length_append, List.length_replicate, List.length_replicate, Nat.add_sub_cancel' short]
  refine ⟨?_, size, ?_⟩
  · rw [responses, List.length_append, List.length_replicate, Nat.add_sub_cancel' short]
  · rw [split, List.length_append, width, size]

theorem Padded.answerMask (padded : Padded model config sample input ids) :
    input.attentionMask.drop input.promptIds.length = input.responseMask ∧ input.responseMask.sum = ids.length := by
  obtain ⟨front, width, split⟩ := padded.attention
  constructor
  · rw [split, padded.wide, ← width, List.drop_left]
  · rw [padded.mask]
    simp

theorem rmScores_ok (padded : Padded model config sample input ids) :
    ∃ scores, rmScores input.promptIds.length input = .ok scores ∧ scores.length = config.responseLength ∧
      scores.sum = input.rewardScore := by
  obtain ⟨some, short⟩ := padded.short
  obtain ⟨mask, total⟩ := padded.answerMask
  obtain ⟨-, size, -⟩ := padded.widths
  have index : ((input.attentionMask.drop input.promptIds.length).sum : Int) - 1 = (ids.length - 1 : Nat) := by
    rw [mask, total]
    omega
  have within : ids.length - 1 < (List.replicate input.responseMask.length (0 : ℚ)).length := by
    rw [List.length_replicate]
    omega
  refine ⟨_, by simp only [rmScores, index]; exact assign_ok within _, ?_, ?_⟩
  · rw [List.length_set, List.length_replicate, size]
  · exact sum_set_zero (by omega) _

theorem scoredRow_ok (padded : Padded model config sample input ids) :
    ∃ g, scoredRow input = .ok g ∧ Rewarded model config sample g := by
  obtain ⟨scores, made, size, total⟩ := rmScores_ok padded
  obtain ⟨mask, sum⟩ := padded.answerMask
  obtain ⟨responseWidth, maskWidth, attentionWidth⟩ := padded.widths
  obtain ⟨padTokenId, responses⟩ := padded.responses
  refine ⟨_, by rw [scoredRow, made]; rfl, ?_⟩
  generalize row : (⟨input.rawPrompt, input.promptIds, input.responseIds, input.responseMask, input.attentionMask,
    scores, input.rewardScore⟩ : Generated) = g
  have answerMask : g.answerMask = input.responseMask := by
    rw [← row]
    exact mask
  have answerIds : g.answerIds = ids := by
    rw [Generated.answerIds, answerMask, sum, ← row]
    simp only [responses, List.take_left]
  constructor
  case prompt => rw [← row, padded.prompt]
  case wide =>
    rw [← row]
    exact ⟨padded.wide, responseWidth, maskWidth, attentionWidth, size⟩
  case answer =>
    rw [answerIds]
    exact padded.answer
  case unpadded => rw [answerMask, answerIds, padded.mask]
  case masked => rw [answerMask, ← row]
  case score =>
    rw [Model.answer, answerIds, ← row, total]
    exact padded.score
  case acc => rw [← row, total]

end Padded

theorem postprocess_ok {batch : List (Sample ι)} {inputs : List InternalAgentLoopOutput} (filled : batch ≠ [])
    (each : List.Forall₂ (fun sample input => ∃ ids, Padded model config sample input ids) batch inputs) :
    ∃ outputs, postprocess inputs = .ok outputs ∧ List.Forall₂ (Rewarded model config) batch outputs := by
  have cat {column : InternalAgentLoopOutput → List Nat} {width : Nat}
      (same : ∀ (sample : Sample ι) input ids, Padded model config sample input ids → (column input).length = width) :
      torchCat (inputs.map column) = .ok () :=
    torchCat_column filled each fun sample input padded => padded.elim (same sample input)
  obtain ⟨outputs, made, rewarded⟩ := mapM_related (each.imp fun _ _ padded => padded.elim fun _ => scoredRow_ok)
  refine ⟨outputs, ?_, rewarded⟩
  rw [postprocess, cat fun _ _ _ padded => padded.wide, ok_bind, cat fun _ _ _ padded => padded.widths.1, ok_bind,
    cat fun _ _ _ padded => padded.widths.2.1, ok_bind, cat fun _ _ _ padded => padded.widths.2.2, ok_bind, made]

theorem generateOnWorker_ok {batch : List (Sample ι)} (filled : batch ≠ []) (answered : Answered model config batch)
    (readable : Readable batch) (call worker : Nat) :
    ∃ outputs, generateOnWorker model config call batch worker = .ok outputs ∧
      List.Forall₂ (Rewarded model config) batch outputs := by
  obtain ⟨inputs, made, each⟩ := @mapM_related _ _ _ _
    (fun entry : Sample ι × Nat => agentLoopPostprocess model config entry.1
      (runAgentLoop model config.responseLength call worker entry.2 entry.1.rawPrompt))
    (fun entry input => ∃ ids, Padded model config entry.1 input ids) batch.zipIdx batch.zipIdx <|
    List.forall₂_same.mpr fun entry member => by
      have among := List.fst_mem_of_mem_zipIdx member
      obtain ⟨truth, read⟩ := readable entry.1 among
      obtain ⟨input, ids, made, padded⟩ := agentLoopPostprocess_ok answered among call worker entry.2 read
      exact ⟨input, made, ids, padded⟩
  have rows : List.Forall₂ (fun sample input => ∃ ids, Padded model config sample input ids) batch inputs := by
    rwa [← List.zipIdx_map_fst 0 batch, List.forall₂_map_left_iff]
  obtain ⟨outputs, processed, rewarded⟩ := postprocess_ok filled rows
  refine ⟨outputs, ?_, rewarded⟩
  rw [generateOnWorker, made, ok_bind, processed]

theorem concat_ok {prompts : List (Sample ι)} {outputs : List (List Generated)} (filled : prompts ≠ [])
    (each : List.Forall₂ (Rewarded model config) prompts outputs.flatten) : concat outputs = .ok outputs.flatten := by
  have cat {α : Type} {column : Generated → List α} {width : Nat}
      (same : ∀ g, g.Wide config → (column g).length = width) : torchCat (outputs.flatten.map column) = .ok () :=
    torchCat_column filled each fun _ g rewarded => same g rewarded.wide
  rw [concat, cat fun _ wide => wide.prompts, ok_bind, cat fun _ wide => wide.responses, ok_bind,
    cat fun _ wide => wide.responseMask, ok_bind, cat fun _ wide => wide.attentionMask, ok_bind,
    cat fun _ wide => wide.rmScores, ok_bind]
  rfl

theorem generateSequences_ok {prompts : List (Sample ι)} (filled : prompts ≠ [])
    (answered : Answered model config prompts) (readable : Readable prompts) (positive : 1 ≤ config.numWorkers)
    (divides : config.numWorkers ∣ prompts.length) (call : Nat) :
    ∃ outputs, generateSequences model config call prompts = .ok outputs ∧
      List.Forall₂ (Rewarded model config) prompts outputs := by
  have flat := chunkRows_flatten divides
  obtain ⟨outputs, made, each⟩ := @mapM_related _ _ _ _
    (fun entry : List (Sample ι) × Nat => generateOnWorker model config call entry.1 entry.2)
    (fun entry outputs => List.Forall₂ (Rewarded model config) entry.1 outputs)
    (chunkRows prompts config.numWorkers).zipIdx (chunkRows prompts config.numWorkers).zipIdx <|
    List.forall₂_same.mpr fun entry member => by
      have inside : entry.1 ⊆ prompts := fun sample among => by
        rw [← flat]
        exact List.mem_flatten.mpr ⟨entry.1, List.fst_mem_of_mem_zipIdx member, among⟩
      exact generateOnWorker_ok (chunkRows_filled divides filled _ (List.fst_mem_of_mem_zipIdx member))
        (answered.of_subset inside) (fun sample among => readable sample (inside among)) call entry.2
  have pieces : List.Forall₂ (List.Forall₂ (Rewarded model config)) (chunkRows prompts config.numWorkers) outputs := by
    rwa [← List.zipIdx_map_fst 0 (chunkRows prompts config.numWorkers), List.forall₂_map_left_iff]
  have rows : List.Forall₂ (Rewarded model config) prompts outputs.flatten := by
    rw [← flat]
    exact List.rel_flatten pieces
  refine ⟨outputs.flatten, ?_, rows⟩
  rw [generateSequences, chunk_ok positive divides, Except.mapError, ok_bind, made, ok_bind, concat_ok filled rows]

end Generation

end CotCompression.Verl
