import CotCompression.Verl.AgentLoop

set_option autoImplicit false

namespace CotCompression.Verl

open Text (lit decimal)
open Reordering (gather Complete Inside)

variable {ι : Type}

structure StepConfig where
  rollout : RolloutConfig
  dpSize : Nat
  balance : Option BalanceArgs
  grpo : GrpoArgs ℚ

structure Rollout (ι : Type) where
  uid : ι
  dataSource : Text
  groundTruth : Text
  output : Generated

-- DataProto.repeat with interleave
def repeatInterleave {α : Type} (times : Nat) (rows : List α) : List α := rows.flatMap (List.replicate times)

-- batch.union(gen_batch_output)
def union (batch : List (Sample ι)) (outputs : List Generated) : Except Error (List (Rollout ι)) := do
  require (batch.length = outputs.length)
    (lit "Two tensor dict must have identical batch size. Got torch.Size([" ++ decimal batch.length ++
      lit "]) and torch.Size([" ++ decimal outputs.length ++ lit "])")
  return List.zipWith (fun sample output => ⟨sample.uid, sample.dataSource, sample.groundTruth, output⟩) batch outputs

def Rollout.seqLen (r : Rollout ι) : Nat := r.output.attentionMask.sum

-- token_level_rewards are rm_scores where the KL term is not part of the reward
def Rollout.response (r : Rollout ι) : Response ι ℚ :=
  ⟨r.uid, r.output.rmScores, r.output.responseMask.map Nat.cast⟩

-- balance_batch of the trainer
def balanceRollouts [DecidableEq ι] (config : StepConfig) (batch : List (Rollout ι)) :
    Except StepError (List (Rollout ι)) :=
  match config.balance with
  | none => .ok batch
  | some args =>
    ((balanceBatch args Rollout.seqLen (some Rollout.uid) config.dpSize batch).map Prod.snd).mapError .driver

-- A step of fit, as far as the advantages.
def trainingStep [DecidableEq ι] (model : Model) (config : StepConfig) (samples : List (Sample ι)) :
    Except StepError (List (Rollout ι × List ℚ)) := do
  let genBatch := repeatInterleave config.rollout.n samples
  let outputs ← generateSequences model config.rollout 0 genBatch
  let batch ← (union (repeatInterleave config.rollout.n samples) outputs).mapError .driver
  let batch ← balanceRollouts config batch
  let advantages ← (computeGrpoOutcomeAdvantage config.grpo (batch.map Rollout.response)).mapError .driver
  return batch.zip advantages

section Rollouts

variable {model : Model} {config : RolloutConfig}

structure Rollout.Of (model : Model) (config : RolloutConfig) (sample : Sample ι) (r : Rollout ι) : Prop where
  uid : r.uid = sample.uid
  dataSource : r.dataSource = sample.dataSource
  groundTruth : r.groundTruth = sample.groundTruth
  rewarded : Rewarded model config sample r.output

theorem union_ok {batch : List (Sample ι)} {outputs : List Generated}
    (each : List.Forall₂ (Rewarded model config) batch outputs) :
    ∃ rollouts, union batch outputs = .ok rollouts ∧ List.Forall₂ (Rollout.Of model config) batch rollouts := by
  refine ⟨_, by rw [union, require_ok.mpr each.length_eq]; rfl, ?_⟩
  induction each with
  | nil => exact .nil
  | cons here _ ih => exact .cons ⟨rfl, rfl, rfl, here⟩ ih

end Rollouts

/-- Within the responses to one prompt, weight moves from the bad ones to the good ones. -/
structure Signal [DecidableEq ι] (good : Rollout ι → Prop) (batch : List (Rollout ι)) (weight : Rollout ι → ℚ) :
    Prop where
  gains : ∀ r ∈ batch, 0 < weight r ↔ good r ∧ ∃ other ∈ batch, other.uid = r.uid ∧ ¬ good other
  loses : ∀ r ∈ batch, weight r < 0 ↔ ¬ good r ∧ ∃ other ∈ batch, other.uid = r.uid ∧ good other
  cancels : ∀ uid, ((batch.filter fun r => decide (r.uid = uid)).map weight).sum = 0

section Weights

variable [DecidableEq ι] {model : Model} {config : StepConfig} {batch : List (Rollout ι)}

def stepWeight (config : StepConfig) (batch : List (Rollout ι)) (r : Rollout ι) : ℚ :=
  advantage config.grpo (groupOf (batch.map Rollout.response) r.uid) r.response.score

theorem groupOf_rollouts (batch : List (Rollout ι)) (uid : ι) :
    groupOf (batch.map Rollout.response) uid =
      (batch.filter fun r => decide (r.uid = uid)).map fun r => r.response.score := by
  rw [groupOf, List.filter_map, List.map_map]
  rfl

theorem stepWeight_signal {good : Rollout ι → Prop} (fair : config.grpo.Fair)
    (scores : ∀ r ∈ batch, (r.response.score = 0 ∨ r.response.score = 1) ∧ (r.response.score = 1 ↔ good r))
    (several : ∀ r ∈ batch, 2 ≤ (batch.filter fun other => decide (other.uid = r.uid)).length) :
    Signal good batch (stepWeight config batch) := by
  have many (r : Rollout ι) (member : r ∈ batch) : 2 ≤ (groupOf (batch.map Rollout.response) r.uid).length := by
    rw [groupOf_rollouts, List.length_map]
    exact several r member
  have binary (uid : ι) : Binary (groupOf (batch.map Rollout.response) uid) := by
    intro score member
    rw [groupOf_rollouts] at member
    obtain ⟨r, among, rfl⟩ := List.mem_map.mp member
    exact (scores r (List.mem_filter.mp among).1).1
  have zero_iff (r : Rollout ι) (member : r ∈ batch) : r.response.score = 0 ↔ ¬ good r := by
    rw [← (scores r member).2]
    rcases (scores r member).1 with zero | one
    · simp [zero]
    · simp [one]
  have found (uid : ι) (score : ℚ) : score ∈ groupOf (batch.map Rollout.response) uid ↔
      ∃ other ∈ batch, other.uid = uid ∧ other.response.score = score := by
    rw [groupOf_rollouts, List.mem_map]
    simp [and_assoc]
  have signs (r : Rollout ι) (member : r ∈ batch) := (binary r.uid).advantage fair (many r member)
    ((found r.uid r.response.score).mpr ⟨r, member, rfl, rfl⟩)
  refine ⟨fun r member => ?_, fun r member => ?_, fun uid => ?_⟩
  · rw [stepWeight, (signs r member).1, (scores r member).2, found]
    exact and_congr_right fun _ => exists_congr fun other => and_congr_right fun among =>
      and_congr_right fun _ => zero_iff other among
  · rw [stepWeight, (signs r member).2, zero_iff r member, found]
    exact and_congr_right fun _ => exists_congr fun other => and_congr_right fun among =>
      and_congr_right fun _ => (scores other among).2
  · by_cases none : batch.filter (fun r => decide (r.uid = uid)) = []
    · simp [none]
    · obtain ⟨r, among⟩ := List.exists_mem_of_ne_nil _ none
      obtain ⟨member, same⟩ := List.mem_filter.mp among
      obtain rfl := of_decide_eq_true same
      have group : (batch.filter fun other => decide (other.uid = r.uid)).map (stepWeight config batch) =
          (groupOf (batch.map Rollout.response) r.uid).map
            (advantage config.grpo (groupOf (batch.map Rollout.response) r.uid)) := by
        conv_rhs => rw [groupOf_rollouts batch r.uid, List.map_map]
        refine List.map_congr_left fun other inside => ?_
        rw [stepWeight, of_decide_eq_true (List.mem_filter.mp inside).2, Function.comp_apply, groupOf_rollouts]
      rw [group, sum_advantage config.grpo (many r member)]

end Weights

section Steps

variable {model : Model} {config : StepConfig} {samples : List (Sample ι)}

theorem repeatInterleave_length {α : Type} (times : Nat) (rows : List α) :
    (repeatInterleave times rows).length = rows.length * times := by
  induction rows with
  | nil => simp [repeatInterleave]
  | cons row rows ih =>
    rw [repeatInterleave] at ih
    rw [repeatInterleave, List.flatMap_cons, List.length_append, ih, List.length_replicate, List.length_cons,
      Nat.succ_mul, Nat.add_comm]

theorem repeatInterleave_map {α β : Type} (f : α → β) (times : Nat) (rows : List α) :
    (repeatInterleave times rows).map f = (rows.map f).flatMap (List.replicate times) := by
  rw [repeatInterleave, List.map_flatMap, List.flatMap_map]
  simp only [List.map_replicate]

theorem mem_repeatInterleave {α : Type} {times : Nat} {rows : List α} {row : α}
    (member : row ∈ repeatInterleave times rows) : row ∈ rows := by
  obtain ⟨other, among, inside⟩ := List.mem_flatMap.mp member
  rwa [List.eq_of_mem_replicate inside]

theorem repeatInterleave_filled {α : Type} {times : Nat} {rows : List α} (some : 1 ≤ times) (filled : rows ≠ []) :
    repeatInterleave times rows ≠ [] := by
  rw [← List.length_pos_iff, repeatInterleave_length]
  exact Nat.mul_pos (List.length_pos_iff.mpr filled) some

theorem rollouts_uids {rollout : RolloutConfig} {rollouts : List (Rollout ι)} {prompts : List (Sample ι)}
    (each : List.Forall₂ (Rollout.Of model rollout) prompts rollouts) :
    rollouts.map Rollout.uid = prompts.map Sample.uid :=
  map_of_forall₂ each fun _ _ is => is.uid

theorem Rollout.Of.score {rollout : RolloutConfig} {sample : Sample ι} {r : Rollout ι} {truth : Int}
    (is : r.Of model rollout sample) (read : pyInt sample.groundTruth = .ok truth) :
    (r.response.score = 0 ∨ r.response.score = 1) ∧
      (r.response.score = 1 ↔ Right (model.answer r.output) r.groundTruth) := by
  obtain ⟨score, scored, either, right⟩ := @computeScore_right (model.answer r.output) _ _ read
  have same : score = r.response.score := Except.ok.inj (scored.symm.trans is.rewarded.score)
  rw [← same, is.groundTruth]
  exact ⟨either, right⟩

variable [DecidableEq ι]

theorem siblings {batch rollouts : List (Rollout ι)} (perm : batch.Perm rollouts)
    (each : List.Forall₂ (Rollout.Of model config.rollout) (repeatInterleave config.rollout.n samples) rollouts)
    {r : Rollout ι} (member : r ∈ batch) : config.rollout.n ≤ (batch.filter fun other => decide (other.uid = r.uid)).length := by
  obtain ⟨sample, among, is⟩ := forall₂_mem_right each (perm.mem_iff.mp member)
  have copies : (List.replicate config.rollout.n sample).Sublist (repeatInterleave config.rollout.n samples) :=
    List.sublist_flatten_of_mem (List.mem_map_of_mem (mem_repeatInterleave among))
  have uids : (List.replicate config.rollout.n r.uid).Sublist (rollouts.map Rollout.uid) := by
    rw [rollouts_uids each, is.uid]
    simpa using copies.map Sample.uid
  calc config.rollout.n = (List.replicate config.rollout.n r.uid).count r.uid := by simp
    _ ≤ (rollouts.map Rollout.uid).count r.uid := uids.count_le r.uid
    _ = (batch.map Rollout.uid).count r.uid := ((perm.map Rollout.uid).count_eq r.uid).symm
    _ = (batch.filter fun other => decide (other.uid = r.uid)).length := by
      rw [List.count, List.countP_map, List.countP_eq_length_filter]
      rfl

structure StepReady (model : Model) (config : StepConfig) (samples : List (Sample ι)) : Prop where
  filled : samples ≠ []
  answered : Answered model config.rollout samples
  some : 1 ≤ config.rollout.n
  workers : 1 ≤ config.rollout.numWorkers
  chunks : config.rollout.numWorkers ∣ samples.length * config.rollout.n
  balance : ∀ args, config.balance = .some args →
    Shareable args config.dpSize config.rollout.n (samples.map Sample.uid)

theorem trainingStep_ok (ready : StepReady model config samples) (readable : Readable samples) :
    ∃ batch rollouts : List (Rollout ι),
      trainingStep model config samples =
        .ok (batch.map fun r =>
          (r, r.output.responseMask.map fun mask : Nat => stepWeight config batch r * (mask : ℚ))) ∧
      batch.Perm rollouts ∧
      List.Forall₂ (Rollout.Of model config.rollout) (repeatInterleave config.rollout.n samples) rollouts := by
  obtain ⟨outputs, generated, rewarded⟩ := @generateSequences_ok _ model config.rollout
    (repeatInterleave config.rollout.n samples) (repeatInterleave_filled ready.some ready.filled)
    (ready.answered.of_subset fun _ member => mem_repeatInterleave member)
    (fun sample member => readable sample (mem_repeatInterleave member)) ready.workers
    (by rw [repeatInterleave_length]; exact ready.chunks) 0
  obtain ⟨rollouts, united, each⟩ := union_ok rewarded
  have prompts : rollouts.map Rollout.uid = (samples.map Sample.uid).flatMap (List.replicate config.rollout.n) := by
    rw [rollouts_uids each, repeatInterleave_map]
  obtain ⟨batch, balanced, perm⟩ : ∃ batch, balanceRollouts config rollouts = .ok batch ∧ batch.Perm rollouts := by
    rw [balanceRollouts]
    cases balance : config.balance with
    | none => exact ⟨rollouts, rfl, .refl _⟩
    | some args =>
      obtain ⟨partitions, made, complete⟩ :=
        @Shareable.reorders _ _ _ args Rollout.seqLen _ rollouts _ _ _ (ready.balance args balance) ready.some prompts
      refine ⟨gather rollouts partitions.flatten, ?_, complete.gather_perm⟩
      simp only [made]
      rfl
  refine ⟨batch, rollouts, ?_, perm, each⟩
  have weighed := computeGrpo_eq config.grpo (batch.map Rollout.response)
  rw [trainingStep]
  simp only [generated, ok_bind, united, Except.mapError, balanced, weighed, List.map_map]
  refine congrArg Except.ok ?_
  rw [← List.map_prod_left_eq_zip]
  refine List.map_congr_left fun r _ => congrArg (Prod.mk r) ?_
  simp only [Function.comp_apply, Rollout.response, List.map_map, stepWeight]
  rfl

theorem rollouts_signal (readable : Readable samples) (fair : config.grpo.Fair) (several : 2 ≤ config.rollout.n)
    {batch rollouts : List (Rollout ι)} (perm : batch.Perm rollouts)
    (each : List.Forall₂ (Rollout.Of model config.rollout) (repeatInterleave config.rollout.n samples) rollouts) :
    Signal (fun r => Right (model.answer r.output) r.groundTruth) batch (stepWeight config batch) := by
  refine stepWeight_signal fair (fun r member => ?_) fun r member => several.trans (siblings perm each member)
  obtain ⟨sample, among, is⟩ := forall₂_mem_right each (perm.mem_iff.mp member)
  obtain ⟨truth, read⟩ := readable sample (mem_repeatInterleave among)
  exact is.score read

theorem trainingStep_masked (ready : StepReady model config samples) (readable : Readable samples) :
    ∃ batch rollouts : List (Rollout ι),
      trainingStep model config samples =
        .ok (batch.map fun r =>
          (r, r.output.answerMask.map fun mask : Nat => stepWeight config batch r * (mask : ℚ))) ∧
      batch.Perm rollouts ∧
      List.Forall₂ (Rollout.Of model config.rollout) (repeatInterleave config.rollout.n samples) rollouts := by
  obtain ⟨batch, rollouts, made, perm, each⟩ := trainingStep_ok ready readable
  refine ⟨batch, rollouts, made.trans (congrArg Except.ok ?_), perm, each⟩
  refine List.map_congr_left fun r member => ?_
  obtain ⟨sample, -, is⟩ := forall₂_mem_right each (perm.mem_iff.mp member)
  rw [is.rewarded.masked]

end Steps

-- A step reaches its advantages with all the responses to each prompt. A response is reinforced just
-- where the reward reads its answer as right and another response to its prompt is wrong, its padding
-- is not, and within a prompt the weights cancel out.
theorem trainingStep_correct [DecidableEq ι] (model : Model) (config : StepConfig) (samples : List (Sample ι))
    (ready : StepReady model config samples) (readable : Readable samples) (fair : config.grpo.Fair)
    (several : 2 ≤ config.rollout.n) :
    ∃ (batch rollouts : List (Rollout ι)) (weight : Rollout ι → ℚ),
      trainingStep model config samples =
        .ok (batch.map fun r => (r, r.output.answerMask.map fun mask : Nat => weight r * (mask : ℚ))) ∧
      batch.Perm rollouts ∧
      List.Forall₂ (Rollout.Of model config.rollout) (repeatInterleave config.rollout.n samples) rollouts ∧
      Signal (fun r => Right (model.answer r.output) r.groundTruth) batch weight := by
  obtain ⟨batch, rollouts, made, perm, each⟩ := trainingStep_masked ready readable
  exact ⟨batch, rollouts, stepWeight config batch, made, perm, each, rollouts_signal readable fair several perm each⟩

def fillUp (padTokenId : Nat) (side : PaddingSide) (width : Nat) (ids : List Nat) : Option (List Nat × List Nat) :=
  let more := width - ids.length
  if ids = [] then none
  else
    match side with
    | .left => some (List.replicate more padTokenId ++ ids, List.replicate more 0 ++ List.replicate ids.length 1)
    | .right => some (ids ++ List.replicate more padTokenId, List.replicate ids.length 1 ++ List.replicate more 0)

-- An engine with two answers, of which one is right.
def twoAnswers : Model where
  promptIds _ := [1]
  generate _ worker _ _ := if worker = 0 then [7] else [8]
  decode ids := if ids = [7] then lit "Answer: 7" else lit "Answer: 8"
  pad := fillUp 0

def twoAnswersConfig : StepConfig where
  rollout := ⟨3, 2, 2, 2⟩
  dpSize := 2
  balance := some ⟨false, false, 0⟩
  grpo := ⟨id, 1, true⟩

theorem twoAnswers_answered (samples : List (Sample ι)) (workers : Nat) :
    Answered twoAnswers ⟨3, 2, 2, workers⟩ samples where
  pads := ⟨0, fun _ _ some _ => if_neg some, fun _ _ some _ => if_neg some⟩
  room := (by decide : 1 ≤ 2)
  prompts _ _ := ⟨List.cons_ne_nil _ _, (by decide : 1 ≤ 3)⟩
  answers _ _ _ worker _ := by by_cases first : worker = 0 <;> simp [twoAnswers, first]

theorem twoAnswersConfig_ready (sample : Sample Nat) : StepReady twoAnswers twoAnswersConfig [sample] where
  filled := List.cons_ne_nil _ _
  answered := twoAnswers_answered _ 2
  some := by decide
  workers := by decide
  chunks := dvd_refl 2
  balance := by
    rintro args ⟨⟩
    exact ⟨by decide, nofun, fun _ => ⟨⟨dvd_refl 2, (by decide : 1 ≤ 2 / 2)⟩, dvd_refl 2⟩⟩

theorem trainingStep_correct_two : ∃ (batch rollouts : List (Rollout Nat)) (weight : Rollout Nat → ℚ),
    trainingStep twoAnswers twoAnswersConfig [⟨0, lit "sums", lit "3 + 4", lit "7"⟩] =
      .ok (batch.map fun r => (r, r.output.answerMask.map fun mask : Nat => weight r * (mask : ℚ))) ∧
    batch.Perm rollouts ∧
    List.Forall₂ (Rollout.Of twoAnswers twoAnswersConfig.rollout)
      (repeatInterleave 2 [⟨0, lit "sums", lit "3 + 4", lit "7"⟩]) rollouts ∧
    Signal (fun r => Right (twoAnswers.answer r.output) r.groundTruth) batch weight :=
  trainingStep_correct twoAnswers twoAnswersConfig [⟨0, lit "sums", lit "3 + 4", lit "7"⟩] (twoAnswersConfig_ready _)
    (fun sample member => by
      obtain rfl := List.mem_singleton.mp member
      exact ⟨7, by decide⟩)
    ⟨fun _ nonneg => nonneg, one_pos⟩ le_rfl

end CotCompression.Verl
