import CotCompression.Shared.Reordering
import CotCompression.Verl.KarmarkarKarp

set_option autoImplicit false

namespace CotCompression.Verl

open Text (lit decimal)
open Reordering (gather Inside Complete)
open Differencing (Within)

def calculateWorkload (seqlen : Nat) : Nat := 24576 * seqlen + seqlen ^ 2

-- -(a // -b)
def ceildiv (a b : Int) : Except Error Int :=
  if b = 0 then .error .zeroDivisionError else .ok (-(a.fdiv (-b)))

-- ((a + b - 1) // b) * b
def roundupDivisible (a b : Int) : Except Error Int :=
  if b = 0 then .error .zeroDivisionError else .ok ((a + b - 1).fdiv b * b)

-- `peers` holds the counts the other ranks reduce with; it is none where no reduction takes place.
structure MicroArgs where
  maxTokenLen : Int
  peers : Option (List Int)
  numBatchesDividedBy : Option Int
  minNumMicroBatch : Option Int
  useDynamicBszBalance : Bool
  forceGroupSize : Nat

def numMicroBatches (args : MicroArgs) (numGroups totalSeqlen : Nat) : Except Error Int := do
  let wanted ← ceildiv totalSeqlen args.maxTokenLen
  let num := min (numGroups : Int) wanted
  let num := match args.minNumMicroBatch with
    | none => num
    | some least => max least num
  let num := match args.peers with
    | none => num
    | some others => others.foldl max num
  match args.numBatchesDividedBy with
  | none => return num
  | some divisor => roundupDivisible num divisor

-- xs[::step]
def stride {α : Type} (step : Nat) (xs : List α) : List α :=
  (List.range ((xs.length + step - 1) / step)).filterMap fun i => xs[i * step]?

def expandGroups (forceGroupSize : Nat) (groupPartition : List Nat) : List Nat :=
  groupPartition.flatMap fun groupIdx => List.range' (groupIdx * forceGroupSize) forceGroupSize

-- What the micro-batches are sorted by: the work in one, then its first sample.
def balanceKey (forceGroupSize : Nat) (workloads : List Nat) (partition : List Nat) : Nat ×ₗ Nat :=
  toLex (((stride forceGroupSize partition).map fun idx => workloads.getD (idx / forceGroupSize) 0).sum,
    partition.head?.getD 0)

-- Smaller micro-batches go to both ends.
def placeEnds (partitions : List (List Nat)) : List (List Nat) :=
  (stride 2 partitions).reverse ++ stride 2 partitions.tail

def balanceOrder (forceGroupSize : Nat) (workloads : List Nat) (partitions : List (List Nat)) : List (List Nat) :=
  placeEnds (partitions.mergeSort fun partition later =>
    decide (balanceKey forceGroupSize workloads later ≤ balanceKey forceGroupSize workloads partition))

def groupWorkloads (forceGroupSize : Nat) (seqlens : List Nat) : List Nat :=
  (List.range (seqlens.length / forceGroupSize)).map fun groupIdx =>
    (((seqlens.map calculateWorkload).drop (groupIdx * forceGroupSize)).take forceGroupSize).sum

def microPartitions (forceGroupSize : Nat) (seqlens : List Nat) (num : Nat) :
    Except Error (List (List Nat) × List Nat) := do
  if 1 < forceGroupSize then
    let workloads := groupWorkloads forceGroupSize seqlens
    let groups ← getSeqlenBalancedPartitions workloads num false
    return (groups.map (expandGroups forceGroupSize), workloads)
  else
    let workloads := seqlens.map calculateWorkload
    let samples ← getSeqlenBalancedPartitions workloads num false
    return (samples, workloads)

def rearrangeMicroBatches (args : MicroArgs) (maxSeqLen : Nat) (seqlens : List Nat) :
    Except Error (List (List Nat)) := do
  require ((maxSeqLen : Int) ≤ args.maxTokenLen)
    (lit "max_token_len must be greater than the sequence length. Got max_token_len=" ++
      decimal args.maxTokenLen ++ lit " and max_seq_len=" ++ decimal maxSeqLen)
  if args.forceGroupSize = 0 then .error .zeroDivisionError
  else
    require (seqlens.length % args.forceGroupSize = 0)
      (lit "Batch size " ++ decimal seqlens.length ++ lit " must be divisible by force_group_size " ++
        decimal args.forceGroupSize)
    let numGroups := seqlens.length / args.forceGroupSize
    let num ← numMicroBatches args numGroups seqlens.sum
    require (num ≤ numGroups) []
    let (microBszIdx, workloads) ← microPartitions args.forceGroupSize seqlens num.toNat
    return if args.useDynamicBszBalance then balanceOrder args.forceGroupSize workloads microBszIdx
      else microBszIdx

-- rows[idxs]
def indexRows {α : Type} (rows : List α) (idxs : List Nat) : Except Error (List α) :=
  idxs.mapM fun idx =>
    match rows[idx]? with
    | some row => .ok row
    | none => .error .indexError

def getReverseIdx (idxMap : List Nat) : Except Error (List Nat) :=
  idxMap.zipIdx.foldlM (fun reverse (idx, i) =>
    if idx < reverse.length then .ok (reverse.set idx i) else .error .indexError) idxMap

def restoreDynamicBatch {α : Type} (data : List α) (batchIdxList : List (List Nat)) : Except Error (List α) := do
  let indices := batchIdxList.flatten
  require (indices.length = data.length)
    (decimal indices.length ++ lit " vs. " ++ decimal data.length)
  let revertIndices ← getReverseIdx indices
  indexRows data revertIndices

def chunkRows {α : Type} (rows : List α) (chunks : Nat) : List (List α) :=
  (List.range chunks).map fun i => (rows.drop (i * (rows.length / chunks))).take (rows.length / chunks)

def chunkTensordict {α : Type} (rows : List α) (chunks : Nat) : Except Error (List (List α)) := do
  if chunks = 0 then .error .zeroDivisionError
  else
    require (rows.length % chunks = 0)
      (lit "expecting td with length divisible by chunks, but got " ++ decimal rows.length ++ lit " and " ++
        decimal chunks)
    return chunkRows rows chunks

structure BatchSettings where
  useDynamicBsz : Bool
  maxTokenLenPerGpu : Int
  spSize : Int
  microBatchSizePerGpu : Nat

def prepareMicroBatches {α : Type} (settings : BatchSettings) (args : MicroArgs) (maxSeqLen : Nat) (seqLen : α → Nat)
    (rows : List α) : Except Error (List (List α) × Option (List (List Nat))) := do
  if settings.useDynamicBsz then
    let args := { args with maxTokenLen := settings.maxTokenLenPerGpu * settings.spSize }
    let batchIdxList ← rearrangeMicroBatches args maxSeqLen (rows.map seqLen)
    let microBatches ← batchIdxList.mapM (indexRows rows)
    return (microBatches, some batchIdxList)
  else
    let size := args.forceGroupSize * settings.microBatchSizePerGpu
    if size = 0 then .error .zeroDivisionError
    else
      require (rows.length % size = 0)
        (lit "data size must be divisible by force_group_size * micro_batch_size_per_gpu")
      let microBatches ← chunkTensordict rows (rows.length / size)
      return (microBatches, none)

def postprocessOutput {β : Type} (outputs : List (List β)) (indices : Option (List (List Nat))) :
    Except Error (List β) :=
  match indices with
  | none => .ok outputs.flatten
  | some batchIdxList => restoreDynamicBatch outputs.flatten batchIdxList

-- forward_backward_batch for one key of the output of a model that works row by row.
def forwardBatch {α β : Type} (settings : BatchSettings) (args : MicroArgs) (maxSeqLen : Nat) (seqLen : α → Nat)
    (forward : α → β) (rows : List α) : Except Error (List β) := do
  let (microBatches, indices) ← prepareMicroBatches settings args maxSeqLen seqLen rows
  postprocessOutput (microBatches.map fun microBatch => microBatch.map forward) indices

section Order

theorem stride_cons_cons {α : Type} (x y : α) (xs : List α) : stride 2 (x :: y :: xs) = x :: stride 2 xs := by
  have count : (xs.length + 2 + 2 - 1) / 2 = (xs.length + 2 - 1) / 2 + 1 := by omega
  rw [stride, List.length_cons, List.length_cons, count, List.range_succ_eq_map, List.filterMap_cons_some (by rfl),
    List.filterMap_map, stride]
  congr 1
  refine List.filterMap_congr fun i _ => ?_
  have place : (i + 1) * 2 = i * 2 + 1 + 1 := by omega
  rw [Function.comp_apply, place, List.getElem?_cons_succ, List.getElem?_cons_succ]

theorem stride_split {α : Type} : ∀ xs : List α, (stride 2 xs ++ stride 2 xs.tail).Perm xs
  | [] => by simp [stride]
  | [x] => by simp [stride]
  | x :: y :: xs => by
    have ih := stride_split xs
    have odd : (stride 2 (y :: xs)).Perm (y :: stride 2 xs.tail) := by
      cases xs with
      | nil => simp [stride]
      | cons z xs => exact .of_eq (stride_cons_cons y z xs)
    rw [stride_cons_cons]
    refine .cons x ((odd.append_left _).trans ?_)
    exact List.perm_middle.trans (ih.cons y)

theorem placeEnds_perm (partitions : List (List Nat)) : (placeEnds partitions).Perm partitions :=
  ((List.reverse_perm _).append_right _).trans (stride_split partitions)

theorem balanceOrder_perm (forceGroupSize : Nat) (workloads : List Nat) (partitions : List (List Nat)) :
    (balanceOrder forceGroupSize workloads partitions).Perm partitions :=
  (placeEnds_perm _).trans (List.mergeSort_perm _ _)

theorem expandGroups_range (forceGroupSize numGroups : Nat) :
    expandGroups forceGroupSize (List.range numGroups) = List.range (numGroups * forceGroupSize) := by
  induction numGroups with
  | zero => simp [expandGroups]
  | succ numGroups ih =>
    rw [expandGroups] at ih
    rw [expandGroups, List.range_succ, List.flatMap_append, ih, List.flatMap_singleton, Nat.succ_mul,
      List.range_eq_range', List.range_eq_range']
    simpa using @List.range'_append_1 0 (numGroups * forceGroupSize) forceGroupSize

theorem expandGroups_one (groupPartition : List Nat) : expandGroups 1 groupPartition = groupPartition := by
  simp [expandGroups]

theorem expandGroups_flatten (forceGroupSize : Nat) (groups : List (List Nat)) :
    (groups.map (expandGroups forceGroupSize)).flatten = expandGroups forceGroupSize groups.flatten := by
  simp only [expandGroups, List.flatMap_def, List.map_flatten, List.flatten_flatten, List.map_map]
  rfl

end Order

section Groups

variable {seqlens : List Nat} {forceGroupSize : Nat}

theorem groupWorkloads_length :
    (groupWorkloads forceGroupSize seqlens).length = seqlens.length / forceGroupSize := by
  simp [groupWorkloads]

theorem load_append (seqlens first second : List Nat) :
    load seqlens (first ++ second) = load seqlens first + load seqlens second := by
  rw [load, List.map_append, List.sum_append]
  rfl

theorem load_range' (works : List Nat) (start size : Nat) :
    load works (List.range' start size) = ((works.drop start).take size).sum := by
  induction size generalizing start with
  | zero => simp [load]
  | succ size ih =>
    rw [List.range'_succ, load, List.map_cons, List.sum_cons, ← load, ih (start + 1)]
    by_cases within : start < works.length
    · rw [List.drop_eq_getElem_cons within, List.take_succ_cons, List.sum_cons, List.getD_eq_getElem?_getD,
        List.getElem?_eq_getElem within]
      rfl
    · rw [List.drop_of_length_le (by omega), List.drop_of_length_le (by omega), List.getD_eq_getElem?_getD,
        List.getElem?_eq_none (by omega)]
      simp

theorem load_expandGroups {groups : List Nat}
    (inside : ∀ groupIdx ∈ groups, groupIdx < seqlens.length / forceGroupSize) :
    load (seqlens.map calculateWorkload) (expandGroups forceGroupSize groups) =
      load (groupWorkloads forceGroupSize seqlens) groups := by
  induction groups with
  | nil => rfl
  | cons groupIdx groups ih =>
    obtain ⟨first, rest⟩ := List.forall_mem_cons.mp inside
    have head : (groupWorkloads forceGroupSize seqlens).getD groupIdx 0 =
        (((seqlens.map calculateWorkload).drop (groupIdx * forceGroupSize)).take forceGroupSize).sum := by
      rw [List.getD_eq_getElem?_getD, groupWorkloads, List.getElem?_map, List.getElem?_range first]
      rfl
    rw [expandGroups, List.flatMap_cons, ← expandGroups, load_append, load_range', ih rest, load, load,
      List.map_cons, List.sum_cons, head]

theorem groupWorkloads_one : groupWorkloads 1 seqlens = seqlens.map calculateWorkload := by
  refine List.ext_getElem (by simp [groupWorkloads]) fun i inside _ => ?_
  rw [groupWorkloads_length, Nat.div_one] at inside
  simp only [groupWorkloads, List.getElem_map, List.getElem_range, Nat.mul_one]
  rw [List.drop_eq_getElem_cons (by simpa using inside), List.take_succ_cons, List.take_zero]
  simp

theorem microPartitions_eq (positive : 1 ≤ forceGroupSize) (num : Nat) :
    microPartitions forceGroupSize seqlens num =
      (getSeqlenBalancedPartitions (groupWorkloads forceGroupSize seqlens) num false).map fun groups =>
        (groups.map (expandGroups forceGroupSize), groupWorkloads forceGroupSize seqlens) := by
  by_cases many : 1 < forceGroupSize
  · rw [microPartitions, if_pos many]
    generalize made : getSeqlenBalancedPartitions (groupWorkloads forceGroupSize seqlens) num false = groups
    simp only [made]
    cases groups <;> rfl
  · obtain rfl : forceGroupSize = 1 := by omega
    have same : expandGroups 1 = id := funext expandGroups_one
    rw [microPartitions, if_neg many, groupWorkloads_one, same]
    generalize made : getSeqlenBalancedPartitions (seqlens.map calculateWorkload) num false = samples
    simp only [made, List.map_id]
    cases samples <;> rfl

structure IsMicroBatching (seqlens : List Nat) (forceGroupSize num : Nat) (microBszIdx : List (List Nat)) : Prop where
  count : microBszIdx.length = num
  complete : Complete seqlens microBszIdx.flatten
  filled : ∀ partition ∈ microBszIdx, partition ≠ []
  grouped : ∀ partition ∈ microBszIdx, ∃ groups : List Nat,
    groups.Pairwise (· < ·) ∧ partition = expandGroups forceGroupSize groups
  balanced : ∀ d, (∀ work ∈ groupWorkloads forceGroupSize seqlens, work ≤ d) →
    Within d (microBszIdx.map (load (seqlens.map calculateWorkload)))

theorem IsMicroBatching.perm {num : Nat} {microBszIdx other : List (List Nat)} (same : other.Perm microBszIdx)
    (is : IsMicroBatching seqlens forceGroupSize num microBszIdx) :
    IsMicroBatching seqlens forceGroupSize num other where
  count := same.length_eq.trans is.count
  complete := same.flatten.trans is.complete
  filled partition member := is.filled partition (same.mem_iff.mp member)
  grouped partition member := is.grouped partition (same.mem_iff.mp member)
  balanced d bound x xMem y yMem :=
    is.balanced d bound x ((same.map _).mem_iff.mp xMem) y ((same.map _).mem_iff.mp yMem)

theorem isMicroBatching_of_partition {num : Nat} {groups : List (List Nat)} (positive : 1 ≤ forceGroupSize)
    (divides : forceGroupSize ∣ seqlens.length) (is : IsPartition (seqlens.length / forceGroupSize) num groups)
    (near : ∀ d, (∀ work ∈ groupWorkloads forceGroupSize seqlens, work ≤ d) →
      Within d (groups.map (load (groupWorkloads forceGroupSize seqlens)))) :
    IsMicroBatching seqlens forceGroupSize num (groups.map (expandGroups forceGroupSize)) := by
  refine ⟨?_, ?_, ?_, ?_, ?_⟩
  · rw [List.length_map, is.count]
  · have expanded : (expandGroups forceGroupSize groups.flatten).Perm
        (expandGroups forceGroupSize (List.range (seqlens.length / forceGroupSize))) := is.covers.flatMap_right _
    rw [expandGroups_range, Nat.div_mul_cancel divides] at expanded
    rwa [Complete, expandGroups_flatten]
  · intro partition member
    obtain ⟨group, inside, rfl⟩ := List.mem_map.mp member
    obtain ⟨first, rest, rfl⟩ := List.exists_cons_of_ne_nil (is.filled group inside)
    simp only [expandGroups, List.flatMap_cons, ne_eq, List.append_eq_nil_iff, List.range'_eq_nil_iff]
    omega
  · intro partition member
    obtain ⟨group, inside, rfl⟩ := List.mem_map.mp member
    exact ⟨group, is.increasing group inside, rfl⟩
  · intro d bound
    rw [List.map_map]
    have loads : groups.map (load (seqlens.map calculateWorkload) ∘ expandGroups forceGroupSize) =
        groups.map (load (groupWorkloads forceGroupSize seqlens)) := by
      refine List.map_congr_left fun group inside => load_expandGroups fun groupIdx among => ?_
      exact List.mem_range.mp (is.covers.mem_iff.mp (List.mem_flatten.mpr ⟨group, inside, among⟩))
    rw [loads]
    exact near d bound

end Groups

section Rearranged

variable {args : MicroArgs} {maxSeqLen : Nat} {seqlens : List Nat}

structure Fits (args : MicroArgs) (maxSeqLen : Nat) (seqlens : List Nat) (num : Nat) : Prop where
  long : (maxSeqLen : Int) ≤ args.maxTokenLen
  groups : 1 ≤ args.forceGroupSize
  divides : args.forceGroupSize ∣ seqlens.length
  wanted : numMicroBatches args (seqlens.length / args.forceGroupSize) seqlens.sum = .ok num
  some : 1 ≤ num
  enough : num ≤ seqlens.length / args.forceGroupSize

theorem rearrangeMicroBatches_ok {num : Nat} (fits : Fits args maxSeqLen seqlens num) :
    ∃ microBszIdx, rearrangeMicroBatches args maxSeqLen seqlens = .ok microBszIdx ∧
      IsMicroBatching seqlens args.forceGroupSize num microBszIdx := by
  obtain ⟨groups, returned, is, -, near⟩ := @getSeqlenBalancedPartitions_ok
    (groupWorkloads args.forceGroupSize seqlens) num false fits.some (by rw [groupWorkloads_length]; exact fits.enough)
    (by simp)
  rw [groupWorkloads_length] at is
  have made := isMicroBatching_of_partition fits.groups fits.divides is fun d bound =>
    near d (by simpa [Bound] using bound)
  have parts : microPartitions args.forceGroupSize seqlens (num : Int).toNat =
      .ok (groups.map (expandGroups args.forceGroupSize), groupWorkloads args.forceGroupSize seqlens) := by
    rw [Int.toNat_natCast, microPartitions_eq fits.groups, returned]
    rfl
  have below : (num : Int) ≤ (seqlens.length / args.forceGroupSize : Nat) := by exact_mod_cast fits.enough
  have computed : rearrangeMicroBatches args maxSeqLen seqlens =
      .ok (if args.useDynamicBszBalance then
          balanceOrder args.forceGroupSize (groupWorkloads args.forceGroupSize seqlens)
            (groups.map (expandGroups args.forceGroupSize))
        else groups.map (expandGroups args.forceGroupSize)) := by
    rw [rearrangeMicroBatches, require_ok.mpr fits.long, ok_bind, if_neg (by have := fits.groups; omega),
      require_ok.mpr (Nat.mod_eq_zero_of_dvd fits.divides), ok_bind]
    simp only [fits.wanted, ok_bind, require_ok.mpr below, parts]
    rfl
  refine ⟨_, computed, ?_⟩
  split
  · exact made.perm (balanceOrder_perm _ _ _)
  · exact made

theorem require_bind {condition : Prop} [Decidable condition] {message : Text} {α : Type} {f : Unit → Except Error α}
    {value : α} (returned : (require condition message >>= f) = .ok value) : condition ∧ f () = .ok value := by
  by_cases holds : condition
  · rw [require_ok.mpr holds, ok_bind] at returned
    exact ⟨holds, returned⟩
  · rw [require, if_neg holds, error_bind] at returned
    cases returned

theorem rearrangeMicroBatches_fits {microBszIdx : List (List Nat)}
    (returned : rearrangeMicroBatches args maxSeqLen seqlens = .ok microBszIdx) :
    ∃ num, Fits args maxSeqLen seqlens num := by
  rw [rearrangeMicroBatches] at returned
  obtain ⟨long, returned⟩ := require_bind returned
  split at returned
  · cases returned
  · rename_i groups
    obtain ⟨divides, returned⟩ := require_bind returned
    obtain ⟨num, wanted, returned⟩ := bind_eq_ok.mp returned
    obtain ⟨enough, returned⟩ := require_bind returned
    obtain ⟨parts, made, -⟩ := bind_eq_ok.mp returned
    rw [microPartitions_eq (by omega)] at made
    have fair := by_contra fun outside => by
      obtain ⟨error, raised⟩ := @getSeqlenBalancedPartitions_error
        (groupWorkloads args.forceGroupSize seqlens) num.toNat false outside
      rw [raised] at made
      cases made
    have whole : ((num.toNat : Nat) : Int) = num := Int.toNat_of_nonneg (by omega)
    exact ⟨num.toNat, long, by omega, Nat.dvd_of_mod_eq_zero divides, by rw [whole]; exact wanted, fair.1, by omega⟩

end Rearranged

-- The micro-batches exist exactly for a batch that fits.
theorem microBatches_correct (args : MicroArgs) (maxSeqLen : Nat) (seqlens : List Nat) :
    ((∃ microBszIdx, rearrangeMicroBatches args maxSeqLen seqlens = .ok microBszIdx) ↔
      ∃ num, Fits args maxSeqLen seqlens num) ∧
    ∀ microBszIdx, rearrangeMicroBatches args maxSeqLen seqlens = .ok microBszIdx →
      ∃ num, Fits args maxSeqLen seqlens num ∧
        IsMicroBatching seqlens args.forceGroupSize num microBszIdx := by
  have correct : ∀ microBszIdx, rearrangeMicroBatches args maxSeqLen seqlens = .ok microBszIdx →
      ∃ num, Fits args maxSeqLen seqlens num ∧ IsMicroBatching seqlens args.forceGroupSize num microBszIdx := by
    intro microBszIdx returned
    obtain ⟨num, fits⟩ := rearrangeMicroBatches_fits returned
    obtain ⟨made, same, is⟩ := rearrangeMicroBatches_ok fits
    obtain rfl := Except.ok.inj (same.symm.trans returned)
    exact ⟨num, fits, is⟩
  refine ⟨⟨?_, ?_⟩, correct⟩
  · rintro ⟨microBszIdx, returned⟩
    exact rearrangeMicroBatches_fits returned
  · rintro ⟨num, fits⟩
    obtain ⟨made, returned, -⟩ := rearrangeMicroBatches_ok fits
    exact ⟨made, returned⟩

section Restored

variable {α β : Type}

theorem indexRows_ok {rows : List α} {idxs : List Nat} (inside : Inside rows idxs) :
    indexRows rows idxs = .ok (gather rows idxs) := by
  induction idxs with
  | nil => rfl
  | cons idx idxs ih =>
    obtain ⟨within, rest⟩ := List.forall_mem_cons.mp inside
    rw [indexRows] at ih
    rw [indexRows, List.mapM_cons, List.getElem?_eq_getElem within, ih rest, Reordering.gather_cons idxs within]
    rfl

theorem getReverseIdx_ok {idxMap : List Nat} (inside : Inside idxMap idxMap) :
    getReverseIdx idxMap = .ok (Reordering.inverse idxMap) := by
  have written : ∀ (places : List (Nat × Nat)) (reverse : List Nat), (∀ place ∈ places, place.1 < reverse.length) →
      places.foldlM (fun (reverse : List Nat) (idx, i) =>
        if idx < reverse.length then Except.ok (reverse.set idx i) else .error Error.indexError) reverse =
          .ok (Reordering.scatter places reverse) := by
    intro places
    induction places with
    | nil => exact fun _ _ => rfl
    | cons place places ih =>
      intro reverse each
      obtain ⟨idx, i⟩ := place
      obtain ⟨first, rest⟩ := List.forall_mem_cons.mp each
      simp only [List.foldlM_cons, if_pos first, ok_bind]
      exact ih _ (by simpa using rest)
  refine written idxMap.zipIdx idxMap fun place member => inside _ ?_
  exact List.fst_mem_of_mem_zipIdx member

theorem restoreDynamicBatch_ok {rows : List α} {batchIdxList : List (List Nat)}
    (complete : Complete rows batchIdxList.flatten) :
    restoreDynamicBatch (gather rows batchIdxList.flatten) batchIdxList = .ok rows := by
  have length := Reordering.gather_length complete.inside
  have inside : Inside batchIdxList.flatten batchIdxList.flatten := fun idx member => by
    rw [complete.length_eq]
    exact complete.inside idx member
  rw [restoreDynamicBatch, require_ok.mpr length.symm, ok_bind, getReverseIdx_ok inside, ok_bind,
    indexRows_ok (Reordering.inverse_inside complete), Reordering.gather_inverse complete]

theorem chunkRows_flatten {rows : List α} {chunks : Nat} (divides : chunks ∣ rows.length) :
    (chunkRows rows chunks).flatten = rows := by
  rw [chunkRows, ← List.flatMap_def, rounds_flatten, Nat.mul_div_cancel' divides, List.take_length]

theorem chunkRows_filled {rows : List α} {chunks : Nat} (divides : chunks ∣ rows.length) (filled : rows ≠ []) :
    ∀ piece ∈ chunkRows rows chunks, piece ≠ [] := by
  intro piece member
  obtain ⟨i, among, rfl⟩ := List.mem_map.mp member
  have before : i < chunks := List.mem_range.mp among
  have some := List.length_pos_iff.mpr filled
  obtain ⟨size, length⟩ := divides
  have quotient : rows.length / chunks = size := by rw [length, Nat.mul_div_cancel_left _ (by omega)]
  have positive : 0 < size := Nat.pos_of_ne_zero fun zero => by
    rw [zero, Nat.mul_zero] at length
    omega
  have reach : i * size + size ≤ rows.length := by
    rw [length, ← Nat.succ_mul]
    exact Nat.mul_le_mul_right size before
  rw [quotient, ← List.length_pos_iff, List.length_take, List.length_drop]
  omega

def Ready (settings : BatchSettings) (args : MicroArgs) (maxSeqLen : Nat) (seqlens : List Nat) : Prop :=
  if settings.useDynamicBsz then
    ∃ num, Fits { args with maxTokenLen := settings.maxTokenLenPerGpu * settings.spSize } maxSeqLen seqlens num
  else
    seqlens ≠ [] ∧ 1 ≤ args.forceGroupSize * settings.microBatchSizePerGpu ∧
      args.forceGroupSize * settings.microBatchSizePerGpu ∣ seqlens.length

variable {settings : BatchSettings} {args : MicroArgs} {maxSeqLen : Nat} {seqLen : α → Nat} {rows : List α}

def Cut (rows : List α) (microBatches : List (List α)) : Option (List (List Nat)) → Prop
  | none => microBatches.flatten = rows
  | some batchIdxList => Complete rows batchIdxList.flatten ∧ microBatches = batchIdxList.map (gather rows)

theorem Cut.perm {microBatches : List (List α)} {indices : Option (List (List Nat))}
    (cut : Cut rows microBatches indices) : microBatches.flatten.Perm rows := by
  cases indices with
  | none => exact .of_eq cut
  | some batchIdxList =>
    rw [cut.2, ← Reordering.gather_flatten]
    exact cut.1.gather_perm

theorem Cut.filled {microBatches : List (List α)} {indices : Option (List (List Nat))}
    (cut : Cut rows microBatches indices) (filled : rows ≠ []) : microBatches ≠ [] := by
  rintro rfl
  exact filled (List.nil_perm.mp cut.perm)

theorem Ready.filled (ready : Ready settings args maxSeqLen (rows.map seqLen)) : rows ≠ [] := by
  rw [Ready] at ready
  rintro rfl
  split at ready
  · obtain ⟨num, fits⟩ := ready
    have some := fits.some
    have enough := fits.enough
    simp only [List.map_nil, List.length_nil, Nat.zero_div] at enough
    omega
  · exact ready.1 rfl

theorem prepareMicroBatches_ok (ready : Ready settings args maxSeqLen (rows.map seqLen)) :
    ∃ microBatches indices, prepareMicroBatches settings args maxSeqLen seqLen rows = .ok (microBatches, indices) ∧
      Cut rows microBatches indices ∧ ∀ microBatch ∈ microBatches, microBatch ≠ [] := by
  have filled := ready.filled
  rw [Ready] at ready
  by_cases dynamic : settings.useDynamicBsz
  · rw [if_pos dynamic] at ready
    obtain ⟨num, fits⟩ := ready
    obtain ⟨batchIdxList, made, is⟩ := rearrangeMicroBatches_ok fits
    have complete : Complete rows batchIdxList.flatten := by simpa [Complete] using is.complete
    have selected : batchIdxList.mapM (indexRows rows) = .ok (batchIdxList.map (gather rows)) :=
      mapM_ok fun idxs member => indexRows_ok fun idx among =>
        complete.inside idx (List.mem_flatten.mpr ⟨idxs, member, among⟩)
    refine ⟨_, some batchIdxList, ?_, ⟨complete, rfl⟩, ?_⟩
    · rw [prepareMicroBatches, if_pos dynamic]
      simp only [made, ok_bind, selected]
      rfl
    · intro microBatch member
      obtain ⟨idxs, among, rfl⟩ := List.mem_map.mp member
      have inside : Inside rows idxs := fun idx within =>
        complete.inside idx (List.mem_flatten.mpr ⟨idxs, among, within⟩)
      rw [← List.length_pos_iff, Reordering.gather_length inside]
      exact List.length_pos_iff.mpr (is.filled idxs among)
  · rw [if_neg dynamic] at ready
    obtain ⟨-, positive, divides⟩ := ready
    rw [List.length_map] at divides
    have some : rows.length ≠ 0 := by simpa using filled
    have chunked : rows.length / (args.forceGroupSize * settings.microBatchSizePerGpu) ∣ rows.length :=
      Nat.div_dvd_of_dvd divides
    have many : rows.length / (args.forceGroupSize * settings.microBatchSizePerGpu) ≠ 0 := fun zero =>
      some (Nat.eq_zero_of_zero_dvd (zero ▸ chunked))
    refine ⟨_, none, ?_, chunkRows_flatten chunked, chunkRows_filled chunked filled⟩
    rw [prepareMicroBatches, if_neg dynamic]
    simp only [if_neg (by omega : ¬ args.forceGroupSize * settings.microBatchSizePerGpu = 0),
      require_ok.mpr (Nat.mod_eq_zero_of_dvd divides), ok_bind, chunkTensordict, if_neg many,
      require_ok.mpr (Nat.mod_eq_zero_of_dvd chunked)]
    rfl

theorem forwardBatch_ok (forward : α → β) (ready : Ready settings args maxSeqLen (rows.map seqLen)) :
    forwardBatch settings args maxSeqLen seqLen forward rows = .ok (rows.map forward) := by
  obtain ⟨microBatches, indices, made, cut, -⟩ := prepareMicroBatches_ok ready
  rw [forwardBatch, made, ok_bind]
  cases indices with
  | none =>
    simp only [postprocessOutput, ← List.map_flatten]
    rw [show microBatches.flatten = rows from cut]
  | some batchIdxList =>
    obtain ⟨complete, rfl⟩ := cut
    have forwarded : ((batchIdxList.map (gather rows)).map fun microBatch => microBatch.map forward).flatten =
        gather (rows.map forward) batchIdxList.flatten := by
      rw [Reordering.gather_map, Reordering.gather_flatten, List.map_flatten]
    simp only [postprocessOutput, forwarded]
    exact @restoreDynamicBatch_ok _ (rows.map forward) batchIdxList (by simpa [Complete] using complete)

theorem forwardBatch_ready {forward : α → β} {out : List β}
    (returned : forwardBatch settings args maxSeqLen seqLen forward rows = .ok out) :
    Ready settings args maxSeqLen (rows.map seqLen) := by
  obtain ⟨⟨microBatches, indices⟩, prepared, -⟩ := bind_eq_ok.mp returned
  rw [prepareMicroBatches] at prepared
  rw [Ready]
  by_cases dynamic : settings.useDynamicBsz
  · rw [if_pos dynamic] at prepared ⊢
    obtain ⟨batchIdxList, made, -⟩ := bind_eq_ok.mp prepared
    exact rearrangeMicroBatches_fits made
  · rw [if_neg dynamic] at prepared ⊢
    simp only at prepared
    split at prepared
    · cases prepared
    · rename_i positive
      obtain ⟨divides, prepared⟩ := require_bind prepared
      obtain ⟨chunks, made, -⟩ := bind_eq_ok.mp prepared
      rw [chunkTensordict] at made
      split at made
      · cases made
      · rename_i many
        refine ⟨?_, by omega, by simpa using Nat.dvd_of_mod_eq_zero divides⟩
        intro empty
        obtain rfl := List.map_eq_nil_iff.mp empty
        simp at many

end Restored

-- Cut into micro-batches and put back together, a batch goes through the model as if in one piece.
theorem forwardBatch_correct {α β : Type} (settings : BatchSettings) (args : MicroArgs) (maxSeqLen : Nat)
    (seqLen : α → Nat) (forward : α → β) (rows : List α) :
    ((∃ out, forwardBatch settings args maxSeqLen seqLen forward rows = .ok out) ↔
      Ready settings args maxSeqLen (rows.map seqLen)) ∧
    ∀ out, forwardBatch settings args maxSeqLen seqLen forward rows = .ok out → out = rows.map forward := by
  refine ⟨⟨?_, ?_⟩, ?_⟩
  · rintro ⟨out, returned⟩
    exact forwardBatch_ready returned
  · intro ready
    exact ⟨_, forwardBatch_ok forward ready⟩
  · intro out returned
    exact Except.ok.inj (returned.symm.trans (forwardBatch_ok forward (forwardBatch_ready returned)))

end CotCompression.Verl
