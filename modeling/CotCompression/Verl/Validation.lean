import CotCompression.Verl.Metrics
import CotCompression.Verl.TrainingStep

set_option autoImplicit false

namespace CotCompression.Verl

open Text (lit decimal)

section Padding

variable {α : Type}

def paddingProtos (data : List α) (filled : data ≠ []) (remainingPad : Nat) : List (List α) :=
  if 0 < remainingPad then
    data.take (min remainingPad data.length) ::
      paddingProtos data filled (remainingPad - min remainingPad data.length)
  else []
termination_by remainingPad
decreasing_by
  have some := List.length_pos_iff.mpr filled
  omega

def padDataprotoToDivisor (data : List α) (sizeDivisor : Nat) : Except Error (List α × Nat) :=
  if sizeDivisor = 0 then .error .zeroDivisionError
  else if uneven : data.length % sizeDivisor ≠ 0 then
    have filled : data ≠ [] := by
      rintro rfl
      exact uneven (Nat.zero_mod sizeDivisor)
    let padSize := sizeDivisor - data.length % sizeDivisor
    .ok (data ++ (paddingProtos data filled padSize).flatten, padSize)
  else .ok (data, 0)

-- data[:-pad_size]
def unpadDataproto (data : List α) (padSize : Nat) : List α :=
  if padSize ≠ 0 then data.take (data.length - padSize) else data

end Padding

section Loop

variable {ι : Type} [DecidableEq ι]

structure ValState (ι : Type) where
  dataSources : List Text
  sampleUids : List ι
  reward : List ℚ
  acc : List ℚ

def validateBatch (model : Model) (config : RolloutConfig) (state : ValState ι) (testData : List (Sample ι))
    (call : Nat) : Except StepError (ValState ι) := do
  let testBatch := repeatInterleave config.n testData
  let (padded, padSize) ← (padDataprotoToDivisor testBatch config.numWorkers).mapError .driver
  let outputsPadded ← generateSequences model config call padded
  let testBatch ← (union testBatch (unpadDataproto outputsPadded padSize)).mapError .driver
  return {
    dataSources := state.dataSources ++ testBatch.map Rollout.dataSource
    sampleUids := state.sampleUids ++ testBatch.map Rollout.uid
    reward := state.reward ++ testBatch.map fun r => r.output.rmScores.sum
    acc := state.acc ++ testBatch.map fun r => r.output.acc }

-- _validate, where n is that of val_kwargs.
def validate (model : Model) (np : Numpy) (config : RolloutConfig) (valBatches : List (List (Sample ι))) :
    Except StepError (Dict Text (Dict Text (Dict Metric ℚ))) := do
  let state ← valBatches.zipIdx.foldlM
    (fun state (testData, call) => validateBatch model config state testData call) ⟨[], [], [], []⟩
  (require (state.acc.length = 0 ∨ state.acc.length = state.reward.length)
    (lit "acc: len(lst)=" ++ decimal state.acc.length ++ lit ", len(sample_scores)=" ++
      decimal state.reward.length)).mapError .driver
  if valBatches.isEmpty then throw (.driver (.valueError (lit "need at least one array to concatenate")))
  else
    let infosDict : Dict Text (List ℚ) := (Dict.empty.set (lit "reward") state.reward).set (lit "acc") state.acc
    (processValidationMetrics np state.dataSources state.sampleUids infosDict).mapError .driver

end Loop

section PaddingFacts

variable {α β : Type}

theorem paddingProtos_flat (data : List α) (filled : data ≠ []) (remainingPad : Nat) :
    (paddingProtos data filled remainingPad).flatten.length = remainingPad ∧
      (paddingProtos data filled remainingPad).flatten ⊆ data := by
  fun_induction paddingProtos data filled remainingPad with
  | case1 remainingPad more ih =>
    rw [List.flatten_cons, List.length_append, List.length_take, ih.1]
    refine ⟨by omega, List.append_subset.mpr ⟨List.take_subset _ _, ih.2⟩⟩
  | case2 remainingPad none => exact ⟨by simp; omega, by simp⟩

theorem padDataprotoToDivisor_ok (data : List α) {sizeDivisor : Nat} (positive : 1 ≤ sizeDivisor) :
    ∃ more, padDataprotoToDivisor data sizeDivisor = .ok (data ++ more, more.length) ∧ more ⊆ data ∧
      sizeDivisor ∣ (data ++ more).length := by
  rw [padDataprotoToDivisor, if_neg (by omega)]
  split
  · next uneven =>
    have filled : data ≠ [] := by
      rintro rfl
      exact uneven (Nat.zero_mod sizeDivisor)
    obtain ⟨size, inside⟩ := paddingProtos_flat data filled (sizeDivisor - data.length % sizeDivisor)
    refine ⟨_, by simp only [size], inside, ?_⟩
    have below := Nat.mod_lt data.length positive
    rw [List.length_append, size, ← Nat.div_add_mod data.length sizeDivisor, Nat.mul_add_mod, Nat.mod_mod,
      Nat.add_assoc, Nat.add_sub_cancel' below.le]
    exact Nat.dvd_add (Nat.dvd_mul_right _ _) (dvd_refl _)
  · next even =>
    refine ⟨[], by simp, by simp, ?_⟩
    rw [List.append_nil]
    exact Nat.dvd_of_mod_eq_zero (by simpa using even)

theorem unpadDataproto_ok {R : α → β → Prop} {data more : List α} {outputs : List β}
    (each : List.Forall₂ R (data ++ more) outputs) :
    List.Forall₂ R data (unpadDataproto outputs more.length) := by
  have size := each.length_eq
  rw [List.length_append] at size
  have cut : unpadDataproto outputs more.length = outputs.take data.length := by
    rw [unpadDataproto, ← size, Nat.add_sub_cancel]
    split
    · rfl
    · next none => rw [List.take_of_length_le (by omega)]
  have front := List.forall₂_take data.length each
  rwa [List.take_left, ← cut] at front

end PaddingFacts

section Run

variable {ι : Type} {model : Model} {config : RolloutConfig}

def ValState.of (rollouts : List (Rollout ι)) : ValState ι :=
  ⟨rollouts.map Rollout.dataSource, rollouts.map Rollout.uid, rollouts.map fun r => r.output.rmScores.sum,
    rollouts.map fun r => r.output.acc⟩

theorem validateBatch_ok (before : List (Rollout ι)) {testData : List (Sample ι)} (filled : testData ≠ [])
    (some : 1 ≤ config.n) (workers : 1 ≤ config.numWorkers)
    (answered : Answered model config testData) (readable : Readable testData) (call : Nat) :
    ∃ rollouts, validateBatch model config (.of before) testData call = .ok (.of (before ++ rollouts)) ∧
      List.Forall₂ (Rollout.Of model config) (repeatInterleave config.n testData) rollouts := by
  obtain ⟨more, padded, inside, divides⟩ :=
    padDataprotoToDivisor_ok (repeatInterleave config.n testData) workers
  have among : repeatInterleave config.n testData ++ more ⊆ testData := fun sample member =>
    mem_repeatInterleave ((List.mem_append.mp member).elim id fun later => inside later)
  have prompts : repeatInterleave config.n testData ++ more ≠ [] :=
    List.append_ne_nil_of_left_ne_nil (repeatInterleave_filled some filled) more
  obtain ⟨outputs, generated, rewarded⟩ := generateSequences_ok prompts (answered.of_subset among)
    (fun sample member => readable sample (among member)) workers divides call
  obtain ⟨rollouts, united, each⟩ := union_ok (unpadDataproto_ok rewarded)
  refine ⟨rollouts, ?_, each⟩
  rw [validateBatch]
  simp only [padded, Except.mapError, ok_bind, generated, united]
  simp only [ValState.of, List.map_append]
  rfl

theorem validateBatches_ok (some : 1 ≤ config.n) (workers : 1 ≤ config.numWorkers)
    {batches : List (List (Sample ι))} (filled : ∀ batch ∈ batches, batch ≠ [])
    (answered : Answered model config batches.flatten) (readable : Readable batches.flatten)
    (before : List (Rollout ι)) (start : Nat) :
    ∃ rollouts, (batches.zipIdx start).foldlM (fun state entry => validateBatch model config state entry.1 entry.2)
        (.of before) = .ok (.of (before ++ rollouts)) ∧
      List.Forall₂ (Rollout.Of model config) (repeatInterleave config.n batches.flatten) rollouts := by
  induction batches generalizing before start with
  | nil => exact ⟨[], by rw [List.append_nil]; rfl, .nil⟩
  | cons batch batches ih =>
    obtain ⟨here, filled⟩ := List.forall_mem_cons.mp filled
    rw [List.flatten_cons] at answered readable
    obtain ⟨rollouts, made, each⟩ := validateBatch_ok before here some workers
      (answered.of_subset (List.subset_append_left _ _)) (fun sample member =>
        readable sample (List.mem_append_left _ member)) start
    obtain ⟨others, rest, hold⟩ := ih filled (answered.of_subset (List.subset_append_right _ _))
      (fun sample member => readable sample (List.mem_append_right _ member)) (before ++ rollouts) (start + 1)
    refine ⟨rollouts ++ others, ?_, ?_⟩
    · rw [List.zipIdx_cons, List.foldlM_cons, made, ok_bind, rest, List.append_assoc]
    · rw [List.flatten_cons, repeatInterleave, List.flatMap_append]
      exact List.rel_append each hold

end Run

section Reported

variable {ι : Type} [DecidableEq ι] {model : Model} {config : RolloutConfig} {samples : List (Sample ι)}
  {rollouts : List (Rollout ι)}

structure Reports (report : Dict Text (Dict Text (Dict Metric ℚ))) (n : Nat) (good : Rollout ι → Prop)
    (samples : List (Sample ι)) (rollouts : List (Rollout ι)) (dataSource varName : Text) : Prop where
  mean : reportAt report dataSource varName (.mean n) =
    some (share good (rollouts.filter fun r => decide (r.dataSource = dataSource)))
  bounds : ∀ k ∈ genNs n, ∃ best worst, reportAt report dataSource varName (.bestMean k) = some best ∧
    reportAt report dataSource varName (.worstMean k) = some worst ∧ worst ≤ best ∧
    best ≤ share (fun sample => ∃ r ∈ rollouts, r.uid = sample.uid ∧ good r)
      (samples.filter fun sample => decide (sample.dataSource = dataSource)) ∧
    share (fun sample => ∀ r ∈ rollouts, r.uid = sample.uid → good r)
      (samples.filter fun sample => decide (sample.dataSource = dataSource)) ≤ worst

theorem count_repeated {ι : Type} [DecidableEq ι] (ids : List ι) (n : Nat) (id : ι) :
    (ids.flatMap (List.replicate n)).count id = ids.count id * n := by
  induction ids with
  | nil => simp
  | cons other ids ih =>
    rw [List.flatMap_cons, List.count_append, ih, List.count_replicate, List.count_cons]
    by_cases same : other = id <;> simp [same, Nat.succ_mul, Nat.add_comm]

theorem mem_repeated {α : Type} {times : Nat} (some : 1 ≤ times) {rows : List α} {row : α} (member : row ∈ rows) :
    row ∈ repeatInterleave times rows :=
  List.mem_flatMap.mpr ⟨row, member, List.mem_replicate.mpr ⟨by omega, rfl⟩⟩

theorem rows_of_prompt (distinct : (samples.map Sample.uid).Nodup)
    (each : List.Forall₂ (Rollout.Of model config) (repeatInterleave config.n samples) rollouts) {sample : Sample ι}
    (member : sample ∈ samples) :
    (rollouts.filter fun r => decide (r.dataSource = sample.dataSource ∧ r.uid = sample.uid)).length =
      config.n := by
  have same : rollouts.filter (fun r => decide (r.dataSource = sample.dataSource ∧ r.uid = sample.uid)) =
      rollouts.filter fun r => decide (r.uid = sample.uid) := by
    refine List.filter_congr fun r among => ?_
    obtain ⟨other, inside, is⟩ := forall₂_mem_right each among
    rw [decide_eq_decide, and_iff_right_iff_imp, is.uid, is.dataSource]
    intro uids
    rw [List.inj_on_of_nodup_map distinct (mem_repeatInterleave inside) member uids]
  have counted : (rollouts.map Rollout.uid).count sample.uid = config.n := by
    rw [rollouts_uids each, repeatInterleave_map, count_repeated,
      List.count_eq_one_of_mem distinct (List.mem_map_of_mem member), Nat.one_mul]
  rw [same, ← counted, List.count, List.countP_map, List.countP_eq_length_filter]
  rfl

def valCols : List (Text × (Rollout ι → ℚ)) :=
  [(lit "reward", fun r => r.output.rmScores.sum), (lit "acc", fun r => r.output.acc)]

theorem mem_promptsOf (some : 1 ≤ config.n)
    (each : List.Forall₂ (Rollout.Of model config) (repeatInterleave config.n samples) rollouts) {dataSource : Text}
    {prompt : ι} : prompt ∈ promptsOf Rollout.dataSource Rollout.uid valCols rollouts dataSource ↔
      ∃ sample ∈ samples, sample.dataSource = dataSource ∧ sample.uid = prompt := by
  rw [promptsOf, mem_prompts]
  constructor
  · rintro ⟨r, among, source, uid⟩
    obtain ⟨sample, inside, is⟩ := forall₂_mem_right each among
    exact ⟨sample, mem_repeatInterleave inside, is.dataSource ▸ source, is.uid ▸ uid⟩
  · rintro ⟨sample, inside, source, uid⟩
    obtain ⟨r, among, is⟩ := forall₂_mem_left each (mem_repeated some inside)
    exact ⟨r, among, is.dataSource.trans source, is.uid.trans uid⟩

theorem mean_promptsOf (some : 1 ≤ config.n) (distinct : (samples.map Sample.uid).Nodup)
    (each : List.Forall₂ (Rollout.Of model config) (repeatInterleave config.n samples) rollouts) (dataSource : Text)
    (f : ι → ℚ) : mean ((promptsOf Rollout.dataSource Rollout.uid valCols rollouts dataSource).map f) =
      mean ((samples.filter fun sample => decide (sample.dataSource = dataSource)).map fun sample => f sample.uid) := by
  have perm : (promptsOf Rollout.dataSource Rollout.uid valCols rollouts dataSource).Perm
      ((samples.filter fun sample => decide (sample.dataSource = dataSource)).map Sample.uid) := by
    refine (List.perm_ext_iff_of_nodup (Dict.distinct _)
      (distinct.sublist (List.filter_sublist.map _))).mpr fun prompt => ?_
    refine (mem_promptsOf some each).trans ?_
    rw [List.mem_map]
    simp only [List.mem_filter, decide_eq_true_eq, and_assoc]
  rw [mean_perm (perm.map f), List.map_map]
  rfl

open Classical in
theorem reports_ok {np : Numpy} (draws : np.Draws) {good : Rollout ι → Prop} (some : 1 ≤ config.n)
    (distinct : (samples.map Sample.uid).Nodup)
    (each : List.Forall₂ (Rollout.Of model config) (repeatInterleave config.n samples) rollouts)
    {varName : Text} {col : Rollout ι → ℚ} (known : (varName, col) ∈ valCols)
    (scored : ∀ r ∈ rollouts, Scores good col r) {sample : Sample ι} (member : sample ∈ samples) :
    Reports (reportOf np (rollouts.map (valuedRow Rollout.dataSource Rollout.uid valCols))) config.n good
      samples rollouts sample.dataSource varName := by
  have names : ((valCols : List (Text × (Rollout ι → ℚ))).map Prod.fst).Nodup :=
    (by decide : [lit "reward", lit "acc"].Nodup)
  obtain ⟨r, among, is⟩ := forall₂_mem_left each (mem_repeated some member)
  have here : ∃ r ∈ rollouts, r.dataSource = sample.dataSource := ⟨r, among, is.dataSource⟩
  have size : ∀ prompt ∈ promptsOf Rollout.dataSource Rollout.uid valCols rollouts sample.dataSource,
      (promptVals Rollout.dataSource Rollout.uid col rollouts sample.dataSource prompt).length = config.n := by
    intro prompt asked
    obtain ⟨other, inside, source, rfl⟩ := (mem_promptsOf some each).mp asked
    rw [promptVals, List.length_map, ← source, rows_of_prompt distinct each inside]
  have filled : ∀ prompt ∈ promptsOf Rollout.dataSource Rollout.uid valCols rollouts sample.dataSource,
      promptVals Rollout.dataSource Rollout.uid col rollouts sample.dataSource prompt ≠ [] := fun prompt asked => by
    rw [← List.length_pos_iff, size prompt asked]
    exact some
  have vals {prompt : ι} {val : ℚ}
      (inside : val ∈ promptVals Rollout.dataSource Rollout.uid col rollouts sample.dataSource prompt) :
      ∃ r ∈ rollouts, r.uid = prompt ∧ (good r → val = 1) ∧ (¬ good r → val = 0) := by
    obtain ⟨r, among, rfl⟩ := List.mem_map.mp inside
    obtain ⟨among, is⟩ := List.mem_filter.mp among
    exact ⟨r, among, (of_decide_eq_true is).2, scored r among⟩
  constructor
  · rw [report_metric names known here fun prompt asked => by
        have found := metricOf_mean np (promptVals Rollout.dataSource Rollout.uid col rollouts sample.dataSource prompt)
        rwa [size prompt asked] at found,
      mean_prompts size, mean_share fun r inside => scored r (List.mem_filter.mp inside).1]
  · intro k among
    have bootstrap := fun prompt asked => @metricOf_bootstrap np
      (promptVals Rollout.dataSource Rollout.uid col rollouts sample.dataSource prompt) k
      (by rw [size prompt asked]; exact among)
    have bound := fun prompt asked => bootstrap_bounds draws (filled prompt asked) (pos_of_mem_genNs among)
    refine ⟨_, _, report_metric names known here fun prompt asked => (bootstrap prompt asked).1,
      report_metric names known here fun prompt asked => (bootstrap prompt asked).2,
      mean_mono fun prompt asked => (bound prompt asked).1, ?_, ?_⟩
    · refine (mean_mono (g := fun prompt => if ∃ r ∈ rollouts, r.uid = prompt ∧ good r then 1 else 0)
        fun prompt asked => (bound prompt asked).2.1.trans ?_).trans_eq ?_
      · obtain ⟨r, inside, is, val⟩ := vals (npMax_spec (filled prompt asked)).1
        by_cases right : good r
        · rw [val.1 right, if_pos ⟨r, inside, is, right⟩]
        · rw [val.2 right]
          split <;> norm_num
      · rw [mean_promptsOf some distinct each]
        exact mean_share fun _ _ => ⟨fun holds => if_pos holds, fun fails => if_neg fails⟩
    · refine Eq.trans_le ?_ (mean_mono (f := fun prompt => if ∀ r ∈ rollouts, r.uid = prompt → good r then 1 else 0)
        fun prompt asked => le_trans ?_ (bound prompt asked).2.2)
      · rw [mean_promptsOf some distinct each]
        exact (mean_share fun _ _ => ⟨fun holds => if_pos holds, fun fails => if_neg fails⟩).symm
      · obtain ⟨r, inside, is, val⟩ := vals (npMin_spec (filled prompt asked)).1
        split
        · next all => rw [val.1 (all r inside is)]
        · by_cases right : good r
          · rw [val.1 right]
            norm_num
          · rw [val.2 right]

structure ValReady (model : Model) (config : RolloutConfig) (valBatches : List (List (Sample ι))) : Prop where
  some : valBatches ≠ []
  filled : ∀ batch ∈ valBatches, batch ≠ []
  responses : 1 ≤ config.n
  workers : 1 ≤ config.numWorkers
  answered : Answered model config valBatches.flatten
  distinct : (valBatches.flatten.map Sample.uid).Nodup

omit [DecidableEq ι] in
theorem ValReady.flatten_filled {valBatches : List (List (Sample ι))} (ready : ValReady model config valBatches) :
    valBatches.flatten ≠ [] := by
  obtain ⟨batch, member⟩ := List.exists_mem_of_ne_nil _ ready.some
  rw [List.flatten_ne_nil_iff]
  exact ⟨batch, member, ready.filled batch member⟩

theorem validate_ok (np : Numpy) {valBatches : List (List (Sample ι))} (ready : ValReady model config valBatches)
    (readable : Readable valBatches.flatten) :
    ∃ rollouts, List.Forall₂ (Rollout.Of model config) (repeatInterleave config.n valBatches.flatten) rollouts ∧
      validate model np config valBatches =
        .ok (reportOf np (rollouts.map (valuedRow Rollout.dataSource Rollout.uid valCols))) := by
  obtain ⟨rollouts, made, each⟩ := validateBatches_ok ready.responses ready.workers ready.filled ready.answered
    readable [] 0
  refine ⟨rollouts, each, ?_⟩
  have start : (⟨[], [], [], []⟩ : ValState ι) = .of [] := rfl
  have infos : ((Dict.empty.set (lit "reward") (rollouts.map fun r => r.output.rmScores.sum)).set (lit "acc")
      (rollouts.map fun r => r.output.acc)).entries = valCols.map fun col => (col.1, rollouts.map col.2) := rfl
  have some : valBatches.isEmpty = false := by simpa using ready.some
  rw [validate, start, made, ok_bind]
  simp only [List.nil_append, ValState.of, List.length_map, or_true, require_ok.mpr trivial, Except.mapError, ok_bind,
    some, processValidationMetrics, valued_ok infos, Bool.false_eq_true, if_false]
  rfl

omit [DecidableEq ι] in
theorem rollouts_scores {valBatches : List (List (Sample ι))} (readable : Readable valBatches.flatten)
    (each : List.Forall₂ (Rollout.Of model config) (repeatInterleave config.n valBatches.flatten) rollouts)
    {varName : Text} (known : varName ∈ [lit "reward", lit "acc"]) :
    ∃ col, (varName, col) ∈ (valCols : List (Text × (Rollout ι → ℚ))) ∧
      ∀ r ∈ rollouts, Scores (fun r => Right (model.answer r.output) r.groundTruth) col r := by
  have scores (r : Rollout ι) (among : r ∈ rollouts) :
      Scores (fun r : Rollout ι => Right (model.answer r.output) r.groundTruth) (fun r => r.output.rmScores.sum) r := by
    obtain ⟨sample, inside, is⟩ := forall₂_mem_right each among
    obtain ⟨truth, read⟩ := readable sample (mem_repeatInterleave inside)
    obtain ⟨either, right⟩ := is.score read
    exact ⟨right.mpr, fun wrong => either.resolve_right fun one => wrong (right.mp one)⟩
  rcases List.mem_pair.mp known with rfl | rfl
  · exact ⟨_, List.mem_cons_self, scores⟩
  · refine ⟨_, List.mem_cons_of_mem _ List.mem_cons_self, fun r among => ?_⟩
    obtain ⟨sample, -, is⟩ := forall₂_mem_right each among
    rw [Scores, is.rewarded.acc]
    exact scores r among

end Reported

-- However the validation set comes in batches and these are padded for the workers, every sample gets
-- its n responses, and what is reported of its data source is the share of the right ones. The best of
-- k responses are never reported as better than all n of them are, nor the worst of k as worse.
theorem validate_correct {ι : Type} [DecidableEq ι] (model : Model) (np : Numpy) (draws : np.Draws)
    (config : RolloutConfig) (valBatches : List (List (Sample ι))) (ready : ValReady model config valBatches)
    (readable : Readable valBatches.flatten) :
    ∃ report rollouts, validate model np config valBatches = .ok report ∧
      List.Forall₂ (Rollout.Of model config) (repeatInterleave config.n valBatches.flatten) rollouts ∧
      ∀ sample ∈ valBatches.flatten, ∀ varName ∈ [lit "reward", lit "acc"],
        Reports report config.n (fun r => Right (model.answer r.output) r.groundTruth) valBatches.flatten
          rollouts sample.dataSource varName := by
  obtain ⟨rollouts, each, made⟩ := validate_ok np ready readable
  refine ⟨_, rollouts, made, each, fun sample member varName known => ?_⟩
  obtain ⟨col, column, scores⟩ := rollouts_scores readable each known
  exact reports_ok draws ready.responses ready.distinct each column scores member

def firstNumpy : Numpy := ⟨fun _ rounds size => List.replicate rounds (List.replicate size 0), id⟩

theorem firstNumpy_draws : firstNumpy.Draws := by
  intro nData size some
  refine ⟨List.length_replicate, fun idxs member => ?_⟩
  obtain rfl := List.eq_of_mem_replicate member
  refine ⟨List.length_replicate, fun i among => ?_⟩
  rw [List.eq_of_mem_replicate among]
  exact some

def twoSums : List (List (Sample Nat)) :=
  [[⟨0, lit "sums", lit "3 + 4", lit "7"⟩], [⟨1, lit "sums", lit "4 + 4", lit "8"⟩]]

theorem validate_correct_sums : ∃ report rollouts,
    validate twoAnswers firstNumpy ⟨3, 2, 2, 3⟩ twoSums = .ok report ∧
    List.Forall₂ (Rollout.Of twoAnswers ⟨3, 2, 2, 3⟩) (repeatInterleave 2 twoSums.flatten) rollouts ∧
    ∀ sample ∈ twoSums.flatten, ∀ varName ∈ [lit "reward", lit "acc"],
      Reports report 2 (fun r => Right (twoAnswers.answer r.output) r.groundTruth) twoSums.flatten rollouts
        sample.dataSource varName := by
  refine validate_correct twoAnswers firstNumpy firstNumpy_draws ⟨3, 2, 2, 3⟩ twoSums
    ⟨by decide, by decide, by decide, by decide, twoAnswers_answered _ 3, by decide⟩ ?_
  intro sample member
  rcases List.mem_pair.mp member with rfl | rfl
  · exact ⟨7, by decide⟩
  · exact ⟨8, by decide⟩

end CotCompression.Verl
