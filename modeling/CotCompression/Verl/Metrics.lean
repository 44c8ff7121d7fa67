import Mathlib.Algebra.Order.Field.Rat
import Mathlib.Algebra.Order.Ring.Unbundled.Rat
import CotCompression.Verl.Advantage

set_option autoImplicit false

namespace CotCompression.Verl

open Text (lit)
open Reordering (gather)

section Metrics

inductive Metric where
  | mean (n : Nat)
  | std (n : Nat)
  | bestMean (n : Nat)
  | bestStd (n : Nat)
  | worstMean (n : Nat)
  | worstStd (n : Nat)
  deriving DecidableEq

/-- The draws of np.random.choice behind the seed, and the square root as it is rounded. -/
structure Numpy where
  choice : Nat → Nat → Nat → List (List Nat)
  root : ℚ → ℚ

-- np.max and np.min of a sample that is not empty
def npMax (sample : List ℚ) : ℚ := sample.max?.getD 0

def npMin (sample : List ℚ) : ℚ := sample.min?.getD 0

-- np.std
def npStd (np : Numpy) (xs : List ℚ) : ℚ := np.root ((xs.map fun x => (x - mean xs) ^ 2).sum / xs.length)

def nBootstrap : Nat := 1000

def bootstrapMetric (np : Numpy) (data : List ℚ) (subsetSize : Nat) (reduceFn : List ℚ → ℚ) : ℚ × ℚ :=
  let metricResults := (np.choice data.length nBootstrap subsetSize).map fun idxs => reduceFn (gather data idxs)
  (mean metricResults, npStd np metricResults)

-- The powers of two below n_resps, from n on.
def doubling (nResps n : Nat) : List Nat :=
  if 0 < n ∧ n < nResps then n :: doubling nResps (n * 2) else []
termination_by nResps - n

def genNs (nResps : Nat) : List Nat := if nResps ≤ 1 then [] else doubling nResps 2 ++ [nResps]

def setBootstrap (np : Numpy) (varVals : List ℚ) (metric : Dict Metric ℚ) (n : Nat) : Dict Metric ℚ :=
  let (bonMean, bonStd) := bootstrapMetric np varVals n npMax
  let (wonMean, wonStd) := bootstrapMetric np varVals n npMin
  (((metric.set (.bestMean n) bonMean).set (.bestStd n) bonStd).set (.worstMean n) wonMean).set (.worstStd n) wonStd

def metricOf (np : Numpy) (varVals : List ℚ) : Dict Metric ℚ :=
  let metric := Dict.empty.set (Metric.mean varVals.length) (mean varVals)
  if 1 < varVals.length then
    (genNs varVals.length).foldl (setBootstrap np varVals) (metric.set (.std varVals.length) (npStd np varVals))
  else metric

variable {ι : Type} [DecidableEq ι]

def getAt {α : Type} (xs : List α) (i : Nat) : Except Error α :=
  match xs[i]? with
  | some x => .ok x
  | none => .error .indexError

structure Valued (ι : Type) where
  dataSource : Text
  uid : ι
  vars : List (Text × ℚ)

def valued (sampleUids : List ι) (infosDict : Dict Text (List ℚ)) (entry : Text × Nat) :
    Except Error (Valued ι) := do
  let uid ← getAt sampleUids entry.2
  let vars ← infosDict.entries.mapM fun (varName, varVals) => do return (varName, ← getAt varVals entry.2)
  return ⟨entry.1, uid, vars⟩

-- data_src2uid2var2vals
def groupVals (rows : List (Valued ι)) : Dict Text (Dict ι (Dict Text (List ℚ))) :=
  Dict.nest Valued.dataSource Valued.uid .empty (fun row => Dict.collect Prod.fst Prod.snd row.vars) rows .empty

structure Measured where
  dataSource : Text
  varName : Text
  metric : Metric
  val : ℚ

def measured (vals : Dict Text (Dict ι (Dict Text (Dict Metric ℚ)))) : List Measured :=
  vals.entries.flatMap fun entry => entry.2.entries.flatMap fun prompt => prompt.2.entries.flatMap fun var =>
    var.2.entries.map fun metric => ⟨entry.1, var.1, metric.1, metric.2⟩

def aggregate (rows : List Measured) : Dict Text (Dict Text (Dict Metric (List ℚ))) :=
  Dict.nest Measured.dataSource Measured.varName .empty
    (fun row metric2uidVals => metric2uidVals.update row.metric [] (· ++ [row.val])) rows .empty

-- Prompt by prompt, and then over the prompts of a data source.
def reportOf (np : Numpy) (rows : List (Valued ι)) : Dict Text (Dict Text (Dict Metric ℚ)) :=
  let metrics := (groupVals rows).mapValues fun uid2var2vals => uid2var2vals.mapValues fun var2vals =>
    (var2vals.filterValues fun varVals => !varVals.isEmpty).mapValues (metricOf np)
  (aggregate (measured metrics)).mapValues fun var2metric => var2metric.mapValues fun metric2uidVals =>
    metric2uidVals.mapValues mean

def processValidationMetrics (np : Numpy) (dataSources : List Text) (sampleUids : List ι)
    (infosDict : Dict Text (List ℚ)) : Except Error (Dict Text (Dict Text (Dict Metric ℚ))) := do
  let rows ← dataSources.zipIdx.mapM (valued sampleUids infosDict)
  return reportOf np rows

end Metrics

section MetricFacts

variable {np : Numpy} {data : List ℚ} {k : Nat}

def Numpy.Draws (np : Numpy) : Prop :=
  ∀ nData size, 1 ≤ nData → (np.choice nData nBootstrap size).length = nBootstrap ∧
    ∀ idxs ∈ np.choice nData nBootstrap size, idxs.length = size ∧ ∀ i ∈ idxs, i < nData

theorem npMax_spec {sample : List ℚ} (filled : sample ≠ []) :
    npMax sample ∈ sample ∧ ∀ x ∈ sample, x ≤ npMax sample := by
  cases found : sample.max? with
  | none => exact absurd (List.max?_eq_none_iff.mp found) filled
  | some x =>
    rw [npMax, found]
    exact List.max?_eq_some_iff.mp found

theorem npMin_spec {sample : List ℚ} (filled : sample ≠ []) :
    npMin sample ∈ sample ∧ ∀ x ∈ sample, npMin sample ≤ x := by
  cases found : sample.min? with
  | none => exact absurd (List.min?_eq_none_iff.mp found) filled
  | some x =>
    rw [npMin, found]
    exact List.min?_eq_some_iff.mp found

theorem mean_mono {α : Type} {f g : α → ℚ} {xs : List α} (below : ∀ x ∈ xs, f x ≤ g x) :
    mean (xs.map f) ≤ mean (xs.map g) := by
  rw [mean, mean, List.length_map, List.length_map]
  exact div_le_div_of_nonneg_right (List.sum_le_sum below) (Nat.cast_nonneg _)

theorem mean_const {α : Type} {xs : List α} (filled : xs ≠ []) (c : ℚ) : mean (xs.map fun _ => c) = c := by
  have size : (xs.length : ℚ) ≠ 0 := by exact_mod_cast fun none => filled (List.length_eq_zero_iff.mp none)
  rw [mean, List.map_const', List.sum_replicate, List.length_replicate, nsmul_eq_mul, mul_div_cancel_left₀ _ size]

theorem Numpy.Draws.samples (draws : np.Draws) (filled : data ≠ []) (some : 1 ≤ k) :
    np.choice data.length nBootstrap k ≠ [] ∧ ∀ idxs ∈ np.choice data.length nBootstrap k,
      gather data idxs ≠ [] ∧ gather data idxs ⊆ data := by
  obtain ⟨count, each⟩ := draws data.length k (List.length_pos_iff.mpr filled)
  refine ⟨fun none => ?_, fun idxs member => ?_⟩
  · rw [none] at count
    cases count
  · obtain ⟨size, inside⟩ := each idxs member
    refine ⟨?_, Reordering.gather_subset data idxs⟩
    rw [← List.length_pos_iff, Reordering.gather_length inside, size]
    exact some

-- The best of samples is no better than the best of all, nor the worst of them worse than the worst.
theorem bootstrap_bounds (draws : np.Draws) (filled : data ≠ []) (some : 1 ≤ k) :
    (bootstrapMetric np data k npMin).1 ≤ (bootstrapMetric np data k npMax).1 ∧
      (bootstrapMetric np data k npMax).1 ≤ npMax data ∧ npMin data ≤ (bootstrapMetric np data k npMin).1 := by
  obtain ⟨drawn, each⟩ := draws.samples filled some
  refine ⟨mean_mono fun idxs member => ?_, ?_, ?_⟩
  · obtain ⟨here, -⟩ := each idxs member
    exact (npMin_spec here).2 _ (npMax_spec here).1
  · rw [← mean_const drawn (npMax data)]
    refine mean_mono fun idxs member => ?_
    obtain ⟨here, inside⟩ := each idxs member
    exact (npMax_spec filled).2 _ (inside (npMax_spec here).1)
  · rw [← mean_const drawn (npMin data)]
    refine mean_mono fun idxs member => ?_
    obtain ⟨here, inside⟩ := each idxs member
    exact (npMin_spec filled).2 _ (inside (npMin_spec here).1)

theorem get?_setBootstrap (metric : Dict Metric ℚ) (n : Nat) (key : Metric) :
    (setBootstrap np data metric n).get? key =
      if key = .worstStd n then some (bootstrapMetric np data n npMin).2
      else if key = .worstMean n then some (bootstrapMetric np data n npMin).1
      else if key = .bestStd n then some (bootstrapMetric np data n npMax).2
      else if key = .bestMean n then some (bootstrapMetric np data n npMax).1
      else metric.get? key := by
  simp only [setBootstrap, Dict.get?_set]

theorem get?_bootstraps (ns : List Nat) (metric : Dict Metric ℚ) :
    let after := ns.foldl (setBootstrap np data) metric
    (∀ n, after.get? (.mean n) = metric.get? (.mean n)) ∧
    (∀ n, after.get? (.bestMean n) = if n ∈ ns then some (bootstrapMetric np data n npMax).1
      else metric.get? (.bestMean n)) ∧
    ∀ n, after.get? (.worstMean n) = if n ∈ ns then some (bootstrapMetric np data n npMin).1
      else metric.get? (.worstMean n) := by
  induction ns generalizing metric with
  | nil => simp
  | cons m ns ih =>
    obtain ⟨means, bests, worsts⟩ := ih (setBootstrap np data metric m)
    simp only [List.foldl_cons, means, bests, worsts, get?_setBootstrap, List.mem_cons]
    refine ⟨fun n => by simp, fun n => ?_, fun n => ?_⟩
    · by_cases later : n ∈ ns <;> by_cases now : n = m <;> simp [later, now]
    · by_cases later : n ∈ ns <;> by_cases now : n = m <;> simp [later, now]

theorem metricOf_mean (np : Numpy) (varVals : List ℚ) :
    (metricOf np varVals).get? (.mean varVals.length) = some (mean varVals) := by
  rw [metricOf]
  split
  · rw [(get?_bootstraps _ _).1]
    simp [Dict.get?_set]
  · simp [Dict.get?_set]

theorem one_lt_of_mem_genNs {nResps n : Nat} (member : n ∈ genNs nResps) : 1 < nResps := by
  rw [genNs] at member
  split at member
  · cases member
  · omega

theorem pos_of_mem_genNs {nResps n : Nat} (member : n ∈ genNs nResps) : 1 ≤ n := by
  have doubled (start : Nat) : ∀ n ∈ doubling nResps start, 1 ≤ n := by
    fun_induction doubling nResps start with
    | case1 start going ih => exact List.forall_mem_cons.mpr ⟨going.1, ih⟩
    | case2 start done => simp
  have several := one_lt_of_mem_genNs member
  rw [genNs, if_neg (by omega), List.mem_append, List.mem_singleton] at member
  rcases member with earlier | rfl
  · exact doubled 2 n earlier
  · omega

theorem metricOf_bootstrap (np : Numpy) {varVals : List ℚ} {n : Nat} (member : n ∈ genNs varVals.length) :
    (metricOf np varVals).get? (.bestMean n) = some (bootstrapMetric np varVals n npMax).1 ∧
      (metricOf np varVals).get? (.worstMean n) = some (bootstrapMetric np varVals n npMin).1 := by
  obtain ⟨-, best, worst⟩ := @get?_bootstraps np varVals (genNs varVals.length)
    ((Dict.empty.set (Metric.mean varVals.length) (mean varVals)).set (.std varVals.length) (npStd np varVals))
  rw [metricOf, if_pos (one_lt_of_mem_genNs member), best, worst, if_pos member, if_pos member]
  exact ⟨rfl, rfl⟩

end MetricFacts

section TableFacts

variable {ι ρ : Type} [DecidableEq ι] {source : ρ → Text} {uid : ρ → ι} {cols : List (Text × (ρ → ℚ))} {rs : List ρ}

def valuedRow (source : ρ → Text) (uid : ρ → ι) (cols : List (Text × (ρ → ℚ))) (r : ρ) : Valued ι :=
  ⟨source r, uid r, cols.map fun col => (col.1, col.2 r)⟩

omit [DecidableEq ι] in
theorem getAt_map {α : Type} {f : ρ → α} {r : ρ} {i : Nat} (found : rs[i]? = some r) :
    getAt (rs.map f) i = .ok (f r) := by
  rw [getAt, List.getElem?_map, found]
  rfl

omit [DecidableEq ι] in
theorem valued_ok {infosDict : Dict Text (List ℚ)}
    (infos : infosDict.entries = cols.map fun col => (col.1, rs.map col.2)) :
    (rs.map source).zipIdx.mapM (valued (rs.map uid) infosDict) = .ok (rs.map (valuedRow source uid cols)) := by
  have each : ∀ entry ∈ rs.zipIdx, valued (rs.map uid) infosDict (source entry.1, entry.2) =
      .ok (valuedRow source uid cols entry.1) := by
    intro entry member
    have found : rs[entry.2]? = some entry.1 := List.mem_zipIdx_iff_getElem?.mp member
    have vars : (infosDict.entries.mapM fun (var : Text × List ℚ) => do
        return (var.1, ← getAt var.2 entry.2)) = .ok (cols.map fun col => (col.1, col.2 entry.1)) := by
      rw [infos, List.mapM_map]
      refine mapM_ok fun col _ => ?_
      simp only [Function.comp_apply, getAt_map found]
      rfl
    simp only [valued, getAt_map found, ok_bind, vars]
    rfl
  rw [List.zipIdx_map, List.mapM_map]
  refine (mapM_ok each).trans ?_
  conv_rhs => rw [← List.zipIdx_map_fst 0 rs, List.map_map]
  rfl

theorem foldl_collect {α κ ν : Type} [DecidableEq κ] (pairs : α → List (κ × ν)) (items : List α) (d : Dict κ (List ν))
    (key : κ) : (items.foldl (fun d item => Dict.collect Prod.fst Prod.snd (pairs item) d) d).getD key [] =
      d.getD key [] ++
        items.flatMap fun item => ((pairs item).filter fun pair => decide (pair.1 = key)).map Prod.snd := by
  induction items generalizing d with
  | nil => simp
  | cons item items ih => rw [List.foldl_cons, ih, Dict.getD_collect, List.flatMap_cons, List.append_assoc]

theorem groupVals_vals {varName : Text} {col : ρ → ℚ} (distinct : (cols.map Prod.fst).Nodup)
    (known : (varName, col) ∈ cols) (dataSource : Text) (prompt : ι) :
    (((groupVals (rs.map (valuedRow source uid cols))).getD dataSource .empty).getD prompt .empty).getD varName [] =
      (rs.filter fun r => decide (source r = dataSource ∧ uid r = prompt)).map col := by
  have only (r : ρ) : ((cols.map fun col => (col.1, col.2 r)).filter fun pair => decide (pair.1 = varName)).map
      Prod.snd = [col r] := by
    have one : cols.filter (fun col => decide (col.1 = varName)) = [(varName, col)] :=
      @Dict.filter_entries _ _ _ ⟨cols, distinct⟩ _ varName col (Dict.get?_eq_some.mpr known)
        fun entry _ => decide_eq_true_iff
    rw [List.filter_map, List.map_map]
    simp only [Function.comp_def, one]
    rfl
  rw [groupVals, Dict.getD_nest, List.filter_map, List.foldl_map]
  simp only [valuedRow, foldl_collect, only, Dict.getD_empty, List.nil_append]
  rw [← List.map_eq_flatMap]
  rfl

theorem mem_prompts {dataSource : Text} {prompt : ι} :
    prompt ∈ ((groupVals (rs.map (valuedRow source uid cols))).getD dataSource .empty).keys ↔
      ∃ r ∈ rs, source r = dataSource ∧ uid r = prompt := by
  rw [groupVals, Dict.mem_keys_nest, Dict.getD_empty]
  refine (or_iff_right List.not_mem_nil).trans ?_
  simp [valuedRow]

def reportAt (report : Dict Text (Dict Text (Dict Metric ℚ))) (dataSource varName : Text) (metric : Metric) :
    Option ℚ :=
  (report.get? dataSource).bind fun var2metric => (var2metric.get? varName).bind fun metric2val =>
    metric2val.get? metric

theorem aggregate_vals (rows : List Measured) (dataSource varName : Text) (metric : Metric) :
    (((aggregate rows).getD dataSource .empty).getD varName .empty).getD metric [] =
      ((rows.filter fun row => decide (row.dataSource = dataSource ∧ row.varName = varName)).filter
        fun row => decide (row.metric = metric)).map Measured.val := by
  rw [aggregate, Dict.getD_nest]
  exact @Dict.getD_collect _ _ _ _ Measured.metric Measured.val _ _ metric

theorem report_mean {rows : List Measured} {dataSource varName : Text} {metric : Metric} {vals : List ℚ}
    (is : (((aggregate rows).getD dataSource .empty).getD varName .empty).getD metric [] = vals) (filled : vals ≠ []) :
    reportAt ((aggregate rows).mapValues fun var2metric => var2metric.mapValues fun metric2uidVals =>
      metric2uidVals.mapValues mean) dataSource varName metric = some (mean vals) := by
  have inner := Dict.get?_of_getD is filled
  have middle := Dict.get?_nested (Dict.mem_keys.mpr ⟨_, inner⟩)
  have outer := Dict.get?_nested (Dict.mem_keys.mpr ⟨_, middle⟩)
  simp only [reportAt, Dict.get?_mapValues, outer, middle, inner, Option.map_some, Option.bind_some]

omit [DecidableEq ι] in
theorem measured_vals {metrics : Dict Text (Dict ι (Dict Text (Dict Metric ℚ)))}
    {uid2var2metric : Dict ι (Dict Text (Dict Metric ℚ))} {dataSource varName : Text} {metric : Metric} {x : ι → ℚ}
    (found : metrics.get? dataSource = some uid2var2metric)
    (each : ∀ entry ∈ uid2var2metric.entries, ∃ metric2val, entry.2.get? varName = some metric2val ∧
      metric2val.get? metric = some (x entry.1)) :
    (((measured metrics).filter fun row => decide (row.dataSource = dataSource ∧ row.varName = varName)).filter
      fun row => decide (row.metric = metric)).map Measured.val = uid2var2metric.keys.map x := by
  have ofSource : (measured metrics).filter (fun row => decide (row.dataSource = dataSource)) =
      uid2var2metric.entries.flatMap fun prompt => prompt.2.entries.flatMap fun var =>
        var.2.entries.map fun metric => ⟨dataSource, var.1, metric.1, metric.2⟩ :=
    Dict.filter_flatMap (fun entry row member => by
      obtain ⟨_, -, member⟩ := List.mem_flatMap.mp member
      obtain ⟨_, -, member⟩ := List.mem_flatMap.mp member
      obtain ⟨_, -, rfl⟩ := List.mem_map.mp member
      rfl) found
  have split (row : Measured) : decide (row.dataSource = dataSource ∧ row.varName = varName) =
      (decide (row.varName = varName) && decide (row.dataSource = dataSource)) := by
    rw [Bool.decide_and, Bool.and_comm]
  have one (entry : ι × Dict Text (Dict Metric ℚ)) (member : entry ∈ uid2var2metric.entries) :
      (((entry.2.entries.flatMap fun var => var.2.entries.map fun metric =>
        (⟨dataSource, var.1, metric.1, metric.2⟩ : Measured)).filter fun row => decide (row.varName = varName)).filter
          fun row => decide (row.metric = metric)).map Measured.val = [x entry.1] := by
    obtain ⟨metric2val, known, val⟩ := each entry member
    rw [Dict.filter_flatMap (fun var row inside => by obtain ⟨_, -, rfl⟩ := List.mem_map.mp inside; rfl) known,
      List.filter_map, List.map_map]
    have only := Dict.filter_entries val (p := fun entry => decide (entry.1 = metric)) fun _ _ => decide_eq_true_iff
    simp only [Function.comp_def, only, List.map_singleton]
  simp only [split, ← List.filter_filter, ofSource]
  rw [List.filter_flatMap, List.filter_flatMap, List.map_flatMap, List.flatMap_congr one, ← List.map_eq_flatMap,
    Dict.keys, List.map_map]
  rfl

def promptsOf (source : ρ → Text) (uid : ρ → ι) (cols : List (Text × (ρ → ℚ))) (rs : List ρ) (dataSource : Text) :
    List ι :=
  ((groupVals (rs.map (valuedRow source uid cols))).getD dataSource .empty).keys

def promptVals (source : ρ → Text) (uid : ρ → ι) (col : ρ → ℚ) (rs : List ρ) (dataSource : Text) (prompt : ι) :
    List ℚ :=
  (rs.filter fun r => decide (source r = dataSource ∧ uid r = prompt)).map col

theorem report_metric {np : Numpy} {varName dataSource : Text} {col : ρ → ℚ} {metric : Metric} {x : ι → ℚ}
    (distinct : (cols.map Prod.fst).Nodup) (known : (varName, col) ∈ cols) (some_ : ∃ r ∈ rs, source r = dataSource)
    (each : ∀ prompt ∈ promptsOf source uid cols rs dataSource,
      (metricOf np (promptVals source uid col rs dataSource prompt)).get? metric = some (x prompt)) :
    reportAt (reportOf np (rs.map (valuedRow source uid cols))) dataSource varName metric =
      some (mean ((promptsOf source uid cols rs dataSource).map x)) := by
  obtain ⟨r, among, is⟩ := some_
  have prompt : uid r ∈ promptsOf source uid cols rs dataSource := mem_prompts.mpr ⟨r, among, is, rfl⟩
  have found := Dict.get?_nested prompt
  refine report_mean ?_ (by rw [ne_eq, List.map_eq_nil_iff]; exact List.ne_nil_of_mem prompt)
  rw [aggregate_vals, measured_vals (x := x) (by rw [Dict.get?_mapValues, found]; rfl) ?_, Dict.keys_mapValues]
  · rfl
  · intro entry member
    obtain ⟨⟨prompt, var2vals⟩, inside, rfl⟩ := List.mem_map.mp member
    have here := Dict.get?_eq_some.mpr inside
    have asked : prompt ∈ promptsOf source uid cols rs dataSource := Dict.mem_keys.mpr ⟨_, here⟩
    obtain ⟨r, among, is⟩ := mem_prompts.mp asked
    have under : ((groupVals (rs.map (valuedRow source uid cols))).getD dataSource .empty).getD prompt .empty =
        var2vals := by
      rw [Dict.getD, here]
      rfl
    have vals : var2vals.getD varName [] = promptVals source uid col rs dataSource prompt := by
      rw [promptVals, ← groupVals_vals distinct known, under]
    have filled : promptVals source uid col rs dataSource prompt ≠ [] :=
      List.ne_nil_of_mem (List.mem_map_of_mem (List.mem_filter.mpr ⟨among, decide_eq_true is⟩))
    refine ⟨_, ?_, each prompt asked⟩
    rw [Dict.get?_mapValues, Dict.get?_filterValues.mpr ⟨Dict.get?_of_getD vals filled, by simpa using filled⟩]
    rfl

variable {col : ρ → ℚ} {n : Nat} {dataSource : Text}

theorem mean_prompts
    (size : ∀ prompt ∈ promptsOf source uid cols rs dataSource,
      (promptVals source uid col rs dataSource prompt).length = n) :
    mean ((promptsOf source uid cols rs dataSource).map fun prompt =>
      mean (promptVals source uid col rs dataSource prompt)) =
        mean ((rs.filter fun r => decide (source r = dataSource)).map col) := by
  have distinct : (promptsOf source uid cols rs dataSource).Nodup := Dict.distinct _
  have known : ∀ r ∈ rs.filter (fun r => decide (source r = dataSource)),
      uid r ∈ promptsOf source uid cols rs dataSource := fun r member => by
    obtain ⟨among, is⟩ := List.mem_filter.mp member
    exact mem_prompts.mpr ⟨r, among, of_decide_eq_true is, rfl⟩
  have part (prompt : ι) : (rs.filter fun r => decide (source r = dataSource)).filter
      (fun r => decide (uid r = prompt)) = rs.filter fun r => decide (source r = dataSource ∧ uid r = prompt) := by
    rw [List.filter_filter]
    refine List.filter_congr fun r _ => ?_
    rw [Bool.decide_and, Bool.and_comm]
  have total := Dict.sum_groups distinct col _ known
  have count := Dict.sum_groups distinct (fun _ => 1) _ known
  simp only [part, List.map_const', List.sum_replicate, nsmul_eq_mul, Nat.cast_id, mul_one] at total count
  have sizes : (promptsOf source uid cols rs dataSource).length * n =
      (rs.filter fun r => decide (source r = dataSource)).length := by
    rw [← count, List.map_congr_left fun prompt member => (by simpa [promptVals] using size prompt member :
      (rs.filter fun r => decide (source r = dataSource ∧ uid r = prompt)).length = n), List.map_const',
      List.sum_replicate, nsmul_eq_mul, Nat.cast_id]
  have each : (promptsOf source uid cols rs dataSource).map (fun prompt =>
      mean (promptVals source uid col rs dataSource prompt)) =
      ((promptsOf source uid cols rs dataSource).map fun prompt =>
        (promptVals source uid col rs dataSource prompt).sum).map (· / (n : ℚ)) := by
    rw [List.map_map]
    refine List.map_congr_left fun prompt member => ?_
    rw [mean, size prompt member, Function.comp_apply]
  rw [each, mean, mean, List.length_map, List.length_map, List.length_map, ← sizes, ← sum_div, ← total, div_div,
    Nat.cast_mul, mul_comm (n : ℚ)]
  rfl

end TableFacts

section Shares

open Classical in
noncomputable def share {α : Type} (good : α → Prop) (xs : List α) : ℚ :=
  xs.countP (fun x => decide (good x)) / xs.length

def Scores {α : Type} (good : α → Prop) (f : α → ℚ) (x : α) : Prop := (good x → f x = 1) ∧ (¬ good x → f x = 0)

theorem mean_share {α : Type} {good : α → Prop} {f : α → ℚ} {xs : List α} (each : ∀ x ∈ xs, Scores good f x) :
    mean (xs.map f) = share good xs := by
  rw [share, mean, List.length_map]
  congr 1
  induction xs with
  | nil => simp
  | cons x xs ih =>
    obtain ⟨here, each⟩ := List.forall_mem_cons.mp each
    rw [List.map_cons, List.sum_cons, ih each, List.countP_cons]
    by_cases is : good x
    · simp [is, here.1 is, add_comm]
    · simp [is, here.2 is]

end Shares

end CotCompression.Verl
