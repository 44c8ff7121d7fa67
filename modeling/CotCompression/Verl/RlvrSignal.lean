import CotCompression.Export.Solved
import CotCompression.Verl.Validation

set_option autoImplicit false

namespace CotCompression.Verl

open Text (lit decimal)

variable {ι : Type}

-- The number the reward reads in a response is what its own prompt works out to, modulo 23.
def Solves (model : Model) (r : Rollout ι) : Prop :=
  ∃ pred answer, extract (model.answer r.output) = .ok (some pred) ∧
    solvePrompt rewardMod r.output.rawPrompt = some answer ∧ pred % rewardMod = answer % rewardMod

def Drawn (rows : List RlvrRow) (samples : List (Sample ι)) : Prop :=
  ∀ sample ∈ samples, ∃ row ∈ rows, sample.dataSource = row.dataSource ∧ sample.rawPrompt = row.content ∧
    sample.groundTruth = row.groundTruth

def Solved (sample : Sample ι) : Prop :=
  ∃ answer, solvePrompt rewardMod sample.rawPrompt = some answer ∧ sample.groundTruth = decimal answer

section Truths

variable {samples : List (Sample ι)} {model : Model} {rollout : RolloutConfig}

theorem readable_of_solved (solved : ∀ sample ∈ samples, Solved sample) : Readable samples := fun sample member => by
  obtain ⟨answer, -, truth⟩ := solved sample member
  exact ⟨answer, by rw [truth, pyInt_decimal]⟩

theorem right_iff_solves {sample : Sample ι} {r : Rollout ι} (solved : Solved sample) (is : r.Of model rollout sample) :
    Right (model.answer r.output) r.groundTruth ↔ Solves model r := by
  obtain ⟨answer, works, truth⟩ := solved
  rw [Solves, is.rewarded.prompt, works, Right, is.groundTruth, truth, pyInt_decimal]
  constructor
  · rintro ⟨pred, gold, found, same, right⟩
    cases same
    exact ⟨pred, _, found, rfl, right⟩
  · rintro ⟨pred, other, found, same, right⟩
    cases same
    exact ⟨pred, _, found, rfl, right⟩

theorem Drawn.solved {writes : List Write} {opMin opMax maxFilesPerOp : Int} {dataSource : Text} {rows : List RlvrRow}
    (ran : Ran rewardMod writes)
    (prepared : prepareTexts (diskAfter writes) opMin opMax maxFilesPerOp dataSource = .ok (some rows))
    (drawn : Drawn rows samples) : ∀ sample ∈ samples, sample.dataSource = dataSource ∧ Solved sample := by
  intro sample member
  obtain ⟨row, among, source, prompt, truth⟩ := drawn sample member
  have found : collectFiles (filesAfter writes) opMin opMax maxFilesPerOp ≠ [] := fun missing => by
    rw [prepares_none missing] at prepared
    cases prepared
  obtain ⟨made, same, each⟩ := @Ran.prepares _ dataSource _ _ _ _ (by decide) ran found
  obtain rfl := Option.some.inj (Except.ok.inj (same.symm.trans prepared))
  obtain ⟨entry, -, fits⟩ := forall₂_mem_right each among
  obtain ⟨-, -, given, answer, works, gold, -⟩ := fits
  exact ⟨source.trans given, answer, prompt ▸ works, truth.trans gold⟩

theorem Signal.congr [DecidableEq ι] {good other : Rollout ι → Prop} {batch : List (Rollout ι)} {weight : Rollout ι → ℚ}
    (same : ∀ r ∈ batch, good r ↔ other r) (signal : Signal good batch weight) : Signal other batch weight where
  gains r member := by
    rw [signal.gains r member, same r member]
    exact and_congr_right fun _ => exists_congr fun s => and_congr_right fun among =>
      and_congr_right fun _ => not_congr (same s among)
  loses r member := by
    rw [signal.loses r member, same r member]
    exact and_congr_right fun _ => exists_congr fun s => and_congr_right fun among =>
      and_congr_right fun _ => same s among
  cancels := signal.cancels

end Truths

-- From generated problems to the training step: on any batch of the exporter's rows, a response is
-- reinforced just where the number read in it solves the problem of its own prompt modulo 23 and
-- another response to that prompt does not.
theorem rlvrStep_correct [DecidableEq ι] {writes : List Write} (ran : Ran rewardMod writes)
    {opMin opMax maxFilesPerOp : Int} {dataSource : Text} {rows : List RlvrRow}
    (prepared : prepareTexts (diskAfter writes) opMin opMax maxFilesPerOp dataSource = .ok (some rows))
    (model : Model) (config : StepConfig) (samples : List (Sample ι)) (drawn : Drawn rows samples)
    (ready : StepReady model config samples) (fair : config.grpo.Fair) (several : 2 ≤ config.rollout.n) :
    ∃ (batch rollouts : List (Rollout ι)) (weight : Rollout ι → ℚ),
      trainingStep model config samples =
        .ok (batch.map fun r => (r, r.output.answerMask.map fun mask : Nat => weight r * (mask : ℚ))) ∧
      batch.Perm rollouts ∧
      List.Forall₂ (Rollout.Of model config.rollout) (repeatInterleave config.rollout.n samples) rollouts ∧
      Signal (Solves model) batch weight := by
  have solved := fun sample member => (drawn.solved ran prepared sample member).2
  have readable := readable_of_solved solved
  obtain ⟨batch, rollouts, made, perm, each⟩ := trainingStep_masked ready readable
  refine ⟨batch, rollouts, stepWeight config batch, made, perm, each,
    (rollouts_signal readable fair several perm each).congr fun r member => ?_⟩
  obtain ⟨sample, among, is⟩ := forall₂_mem_right each (perm.mem_iff.mp member)
  exact right_iff_solves (solved sample (mem_repeatInterleave among)) is

-- From generated problems to the validation: on the exporter's rows, the accuracy reported is the share
-- of responses in which the number read solves the problem of their own prompt modulo 23, and bounds
-- the best and the worst of k.
theorem rlvrValidation_correct [DecidableEq ι] {writes : List Write} (ran : Ran rewardMod writes)
    {opMin opMax maxFilesPerOp : Int} {dataSource : Text} {rows : List RlvrRow}
    (prepared : prepareTexts (diskAfter writes) opMin opMax maxFilesPerOp dataSource = .ok (some rows))
    (model : Model) (np : Numpy) (draws : np.Draws) (config : RolloutConfig) (valBatches : List (List (Sample ι)))
    (drawn : Drawn rows valBatches.flatten) (ready : ValReady model config valBatches) :
    ∃ report rollouts, validate model np config valBatches = .ok report ∧
      List.Forall₂ (Rollout.Of model config) (repeatInterleave config.n valBatches.flatten) rollouts ∧
      ∀ varName ∈ [lit "reward", lit "acc"],
        Reports report config.n (Solves model) valBatches.flatten rollouts dataSource varName := by
  have solved := drawn.solved ran prepared
  have readable := readable_of_solved fun sample member => (solved sample member).2
  obtain ⟨rollouts, each, made⟩ := validate_ok np ready readable
  refine ⟨_, rollouts, made, each, fun varName known => ?_⟩
  obtain ⟨col, column, scores⟩ := rollouts_scores readable each known
  obtain ⟨sample, member⟩ := List.exists_mem_of_ne_nil _ ready.flatten_filled
  rw [← (solved sample member).1]
  refine reports_ok draws ready.responses ready.distinct each column (fun r among => ?_) member
  obtain ⟨asked, inside, is⟩ := forall₂_mem_right each among
  have same := right_iff_solves (solved asked (mem_repeatInterleave inside)).2 is
  obtain ⟨right, wrong⟩ := scores r among
  exact ⟨fun solves => right (same.mpr solves), fun fails => wrong fun holds => fails (same.mp holds)⟩

section Leak

def sampleOf (row : RlvrRow) : Sample Nat := ⟨row.index, row.dataSource, row.content, row.groundTruth⟩

theorem drawn_all (rows : List RlvrRow) : Drawn rows (rows.map sampleOf) := by
  intro sample member
  obtain ⟨row, among, rfl⟩ := List.mem_map.mp member
  exact ⟨row, among, rfl, rfl, rfl⟩

theorem leakArgs_rows : ∃ block rows, Ran rewardMod [⟨leakArgs, 0, [block]⟩] ∧
    prepareTexts (diskAfter [⟨leakArgs, 0, [block]⟩]) 2 2 1 (lit "reasoning-compression") = .ok (some rows) ∧
    rows ≠ [] ∧ (rows.map RlvrRow.index).Nodup := by
  obtain ⟨block, chain, returned⟩ := leakArgs_returns
  have ran : Ran rewardMod [⟨leakArgs, 0, [block]⟩] :=
    .run .none (fun _ => 0) leakArgs 1 0 1 [[block]] rfl (by decide) rfl returned
  have collected : collectFiles (filesAfter [⟨leakArgs, 0, [block]⟩]) 2 2 1 = [block] :=
    @collectFiles_single 2 (lit "simple_op2_force_True_0.jsonl") (by decide) (by decide) block
  obtain ⟨rows, prepared, each⟩ := @Ran.prepares _ (lit "reasoning-compression") _ 2 2 1 (by decide) ran
    (by rw [collected]; exact List.cons_ne_nil _ _)
  rw [collected, List.flatten_singleton] at each
  refine ⟨block, rows, ran, prepared, ?_, ?_⟩
  · have three : block.length = 3 := by simpa using congrArg List.length chain.1
    rw [← List.length_pos_iff, ← each.length_eq, List.length_zipIdx, three]
    decide
  · rw [@map_of_forall₂ _ _ _ _ Prod.snd RlvrRow.index _ _ each fun _ _ fits => fits.1, List.zipIdx_map_snd]
    exact List.nodup_range'

theorem rlvrStep_correct_leak : ∃ block rows, Ran rewardMod [⟨leakArgs, 0, [block]⟩] ∧
    prepareTexts (diskAfter [⟨leakArgs, 0, [block]⟩]) 2 2 1 (lit "reasoning-compression") = .ok (some rows) ∧
    ∃ (batch rollouts : List (Rollout Nat)) (weight : Rollout Nat → ℚ),
      trainingStep twoAnswers ⟨⟨3, 2, 2, 1⟩, 2, none, ⟨id, 1, true⟩⟩ (rows.map sampleOf) =
        .ok (batch.map fun r => (r, r.output.answerMask.map fun mask : Nat => weight r * (mask : ℚ))) ∧
      batch.Perm rollouts ∧
      List.Forall₂ (Rollout.Of twoAnswers ⟨3, 2, 2, 1⟩) (repeatInterleave 2 (rows.map sampleOf)) rollouts ∧
      Signal (Solves twoAnswers) batch weight := by
  obtain ⟨block, rows, ran, prepared, filled, -⟩ := leakArgs_rows
  refine ⟨block, rows, ran, prepared, ?_⟩
  refine rlvrStep_correct ran prepared twoAnswers _ (rows.map sampleOf) (drawn_all rows)
    ⟨by simpa using filled, twoAnswers_answered _ 1, by decide, by decide, one_dvd _, ?_⟩
    ⟨fun _ nonneg => nonneg, one_pos⟩ le_rfl
  intro args balance
  cases balance

theorem rlvrValidation_correct_leak : ∃ block rows, Ran rewardMod [⟨leakArgs, 0, [block]⟩] ∧
    prepareTexts (diskAfter [⟨leakArgs, 0, [block]⟩]) 2 2 1 (lit "reasoning-compression") = .ok (some rows) ∧
    ∃ report rollouts, validate twoAnswers firstNumpy ⟨3, 2, 2, 2⟩ [rows.map sampleOf] = .ok report ∧
      List.Forall₂ (Rollout.Of twoAnswers ⟨3, 2, 2, 2⟩) (repeatInterleave 2 [rows.map sampleOf].flatten) rollouts ∧
      ∀ varName ∈ [lit "reward", lit "acc"], Reports report 2 (Solves twoAnswers) [rows.map sampleOf].flatten
        rollouts (lit "reasoning-compression") varName := by
  obtain ⟨block, rows, ran, prepared, filled, distinct⟩ := leakArgs_rows
  refine ⟨block, rows, ran, prepared, ?_⟩
  refine rlvrValidation_correct ran prepared twoAnswers firstNumpy firstNumpy_draws ⟨3, 2, 2, 2⟩ [rows.map sampleOf]
    (by rw [List.flatten_singleton]; exact drawn_all rows)
    ⟨List.cons_ne_nil _ _, ?_, by decide, by decide, twoAnswers_answered _ 2, ?_⟩
  · simpa using filled
  · rw [List.flatten_singleton, List.map_map]
    exact distinct

end Leak

end CotCompression.Verl
