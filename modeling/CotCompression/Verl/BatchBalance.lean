import Mathlib.Algebra.Field.Rat
import CotCompression.Verl.Advantage

set_option autoImplicit false

namespace CotCompression.Verl

open Text (lit decimal)
open Differencing (Within)
open Reordering (gather Complete Inside)

variable {ι : Type} [DecidableEq ι]

structure UidScan (ι : Type) where
  groups : List (List Nat)
  currentUid : Option ι
  currentIndices : List Nat

def UidScan.step (scan : UidScan ι) (i : Nat) (uid : ι) : UidScan ι :=
  if some uid ≠ scan.currentUid then
    { groups := if scan.currentIndices = [] then scan.groups else scan.groups ++ [scan.currentIndices]
      currentUid := some uid
      currentIndices := [i] }
  else { scan with currentIndices := scan.currentIndices ++ [i] }

def UidScan.closed (scan : UidScan ι) : List (List Nat) :=
  if scan.currentIndices = [] then scan.groups else scan.groups ++ [scan.currentIndices]

def scanUids (uids : List (ι × Nat)) (scan : UidScan ι) : UidScan ι :=
  uids.foldl (fun (scan : UidScan ι) entry => scan.step entry.2 entry.1) scan

def uidGroups (uids : List ι) : List (List Nat) := (scanUids uids.zipIdx ⟨[], none, []⟩).closed

def getGroupBalancedPartitions (seqlens : List Nat) (uids : List ι) (k : Nat) : Except Error (List (List Nat)) := do
  require (seqlens.length = uids.length) (lit "seqlen_list and uid_list must have same length")
  let groups := uidGroups uids
  require (k ≤ groups.length)
    (lit "Number of uid groups (" ++ decimal groups.length ++ lit ") must be >= k_partitions (" ++ decimal k ++
      lit "). Consider reducing world_size or increasing batch_size.")
  let groupWorkloads := groups.map fun indices => load (seqlens.map calculateWorkload) indices
  let groupPartitions ← getSeqlenBalancedPartitions groupWorkloads k true
  groupPartitions.mapM fun groupPartition => do
    let members ← indexRows groups groupPartition
    return ascending members.flatten

-- ppoMiniBatchSize is read where mini-batches are kept.
structure BalanceArgs where
  usePrefixGrouper : Bool
  keepMinibatch : Bool
  ppoMiniBatchSize : Nat

-- What a rank gets of one mini-batch goes behind what it has.
def minibatchPartitions (workloads : List Nat) (k minibatchSize : Nat) (partitions : List (List Nat)) (i : Nat) :
    Except Error (List (List Nat)) := do
  let parts ← getSeqlenBalancedPartitions ((workloads.drop (i * minibatchSize)).take minibatchSize) k true
  return List.zipWith (fun partition part => partition ++ part.map (· + minibatchSize * i)) partitions parts

def unevenGroups (numGroups dpSize batchSize : Nat) : Text :=
  lit "PrefixGrouper with balance_batch requires num_uid_groups (" ++ decimal numGroups ++ lit ") % dp_size (" ++
    decimal dpSize ++ lit ") == 0. This ensures each rank gets equal number of groups. Current batch_size=" ++
    decimal batchSize ++ lit ", adjust batch_size to be a multiple of dp_size * rollout.n."

def globalPartitions (args : BalanceArgs) (seqlens : List Nat) (uids : Option (List ι)) (k : Nat) :
    Except Error (List (List Nat)) :=
  match args.usePrefixGrouper, uids with
  | true, some uids =>
    if k = 0 then .error .zeroDivisionError
    else if uids.dedup.length % k ≠ 0 then .error (.valueError (unevenGroups uids.dedup.length k seqlens.length))
    else getGroupBalancedPartitions seqlens uids k
  | _, _ =>
    if args.keepMinibatch then
      if args.ppoMiniBatchSize = 0 then .error .zeroDivisionError
      else
        (List.range (seqlens.length / args.ppoMiniBatchSize)).foldlM
          (minibatchPartitions (seqlens.map calculateWorkload) k args.ppoMiniBatchSize) (List.replicate k [])
    else getSeqlenBalancedPartitions (seqlens.map calculateWorkload) k true

-- partition.sort(key=lambda x: (workload_lst[x], x)), then the small ones to both ends
def orderWithin (workloads : List Nat) (partition : List Nat) : List Nat :=
  let sorted := partition.mergeSort fun x y =>
    decide (toLex (workloads.getD x 0, x) ≤ toLex (workloads.getD y 0, y))
  stride 2 sorted ++ (stride 2 sorted.tail).reverse

def orderedPartitions (args : BalanceArgs) (seqlens : List Nat) (partitions : List (List Nat)) : List (List Nat) :=
  if args.usePrefixGrouper then partitions
  else partitions.map (orderWithin (seqlens.map calculateWorkload))

-- An index tensor without an entry holds floats, and they are no indices.
def reorder {α : Type} (batch : List α) (indices : List Nat) : Except Error (List α) :=
  if indices = [] then .error .indexError else indexRows batch indices

def balanceBatch {α : Type} (args : BalanceArgs) (seqLen : α → Nat) (uid : Option (α → ι)) (k : Nat) (batch : List α) :
    Except Error (List (List Nat) × List α) := do
  let partitions ← globalPartitions args (batch.map seqLen) (uid.map batch.map) k
  let partitions := orderedPartitions args (batch.map seqLen) partitions
  let reordered ← reorder batch partitions.flatten
  return (partitions, reordered)

def BalanceArgs.blockSize (args : BalanceArgs) (n : Nat) : Nat := if args.keepMinibatch then args.ppoMiniBatchSize else n

def ofMinibatch (size b : Nat) (partition : List Nat) : List Nat := partition.filter fun x => decide (x / size = b)

structure Dealt (works : List Nat) (size k rounds : Nat) (partitions : List (List Nat)) : Prop where
  count : partitions.length = k
  covers : partitions.flatten.Perm (List.range (rounds * size))
  sizes : ∀ partition ∈ partitions, partition.length * k = rounds * size
  even : ∀ b < rounds, ∀ partition ∈ partitions, (ofMinibatch size b partition).length * k = size
  near : ∀ b < rounds, ∀ d, Within d ((works.drop (b * size)).take size) →
    Within d (partitions.map fun partition => load works (ofMinibatch size b partition))

section Minibatches

variable {works : List Nat} {size k rounds : Nat} {partitions : List (List Nat)}

theorem load_shifted {offset : Nat} {part : List Nat} (inside : ∀ x ∈ part, x < size) :
    load works (part.map (· + offset)) = load ((works.drop offset).take size) part := by
  rw [load, load, List.map_map]
  refine congrArg List.sum (List.map_congr_left fun x member => ?_)
  rw [Function.comp_apply, List.getD_eq_getElem?_getD, List.getD_eq_getElem?_getD,
    List.getElem?_take_of_lt (inside x member), List.getElem?_drop, Nat.add_comm]

theorem ofMinibatch_earlier {partition : List Nat} (below : ∀ x ∈ partition, x < rounds * size) :
    ofMinibatch size rounds partition = [] := by
  refine List.filter_eq_nil_iff.mpr fun x member same => ?_
  have inside := below x member
  rw [decide_eq_true_eq] at same
  rw [← Nat.div_lt_iff_lt_mul (Nat.pos_of_ne_zero fun zero => by simp [zero] at inside)] at inside
  omega

theorem ofMinibatch_shifted {part : List Nat} (inside : ∀ x ∈ part, x < size) (b : Nat) :
    ofMinibatch size b (part.map (· + size * rounds)) = if b = rounds then part.map (· + size * rounds) else [] := by
  have place : ∀ x ∈ part.map (· + size * rounds), x / size = rounds := by
    intro x member
    obtain ⟨y, among, rfl⟩ := List.mem_map.mp member
    have small := inside y among
    rw [Nat.add_mul_div_left _ _ (by omega), Nat.div_eq_of_lt small, Nat.zero_add]
  split
  · next same =>
    exact List.filter_eq_self.mpr fun x member => decide_eq_true ((place x member).trans same.symm)
  · next other =>
    exact List.filter_eq_nil_iff.mpr fun x member same =>
      other ((of_decide_eq_true same).symm.trans (place x member))

theorem dealt_none (works : List Nat) (size k : Nat) : Dealt works size k 0 (List.replicate k []) where
  count := List.length_replicate
  covers := by simp
  sizes partition member := by simp [List.eq_of_mem_replicate member]
  even b small := by omega
  near b small := by omega

theorem Dealt.step (dealt : Dealt works size k rounds partitions) (positive : 1 ≤ k) (divides : k ∣ size)
    (filled : 1 ≤ size) (within : (rounds + 1) * size ≤ works.length) :
    ∃ next, minibatchPartitions works k size partitions rounds = .ok next ∧ Dealt works size k (rounds + 1) next := by
  have length : ((works.drop (rounds * size)).take size).length = size := by
    rw [Nat.succ_mul] at within
    rw [List.length_take, List.length_drop]
    omega
  obtain ⟨parts, returned, is, sizes, near⟩ := @getSeqlenBalancedPartitions_ok
    ((works.drop (rounds * size)).take size) k true positive (by rw [length]; exact Nat.le_of_dvd filled divides)
    (fun _ => by rwa [length])
  rw [length] at is sizes
  have inside : ∀ part ∈ parts, ∀ x ∈ part, x < size := fun part member x among =>
    List.mem_range.mp (is.covers.mem_iff.mp (List.mem_flatten.mpr ⟨part, member, among⟩))
  have below : ∀ partition ∈ partitions, ∀ x ∈ partition, x < rounds * size := fun partition member x among =>
    List.mem_range.mp (dealt.covers.mem_iff.mp (List.mem_flatten.mpr ⟨partition, member, among⟩))
  let grown (pair : List Nat × List Nat) : List Nat := pair.1 ++ pair.2.map (· + size * rounds)
  have zipped : List.zipWith (fun partition part => partition ++ part.map (· + size * rounds)) partitions parts =
      (partitions.zip parts).map grown := by rw [List.map_zip_eq_zipWith]; rfl
  have of_pair {pair : List Nat × List Nat} (member : pair ∈ partitions.zip parts) :
      pair.1 ∈ partitions ∧ pair.2 ∈ parts := List.of_mem_zip member
  have before {pair : List Nat × List Nat} (member : pair ∈ partitions.zip parts) {b : Nat} (small : b < rounds) :
      ofMinibatch size b (grown pair) = ofMinibatch size b pair.1 := by
    rw [ofMinibatch, List.filter_append, ← ofMinibatch, ← ofMinibatch,
      ofMinibatch_shifted (inside _ (of_pair member).2), if_neg (by omega), List.append_nil]
  have now {pair : List Nat × List Nat} (member : pair ∈ partitions.zip parts) :
      ofMinibatch size rounds (grown pair) = pair.2.map (· + size * rounds) := by
    rw [ofMinibatch, List.filter_append, ← ofMinibatch, ← ofMinibatch, ofMinibatch_earlier (below _ (of_pair member).1),
      ofMinibatch_shifted (inside _ (of_pair member).2), if_pos rfl, List.nil_append]
  have same : partitions.length = parts.length := by rw [dealt.count, is.count]
  refine ⟨(partitions.zip parts).map grown, by rw [minibatchPartitions, returned, ok_bind, zipped]; rfl, ?_⟩
  constructor
  case count => rw [List.length_map, List.length_zip, dealt.count, is.count, Nat.min_self]
  case covers =>
    have shifted : (parts.map (List.map (· + size * rounds))).flatten.Perm
        (List.range' (rounds * size) size) := by
      rw [← List.map_flatten]
      refine (is.covers.map _).trans (.of_eq ?_)
      simp only [Nat.add_comm _ (size * rounds)]
      rw [List.range_eq_range', List.map_add_range', Nat.add_zero, Nat.mul_comm]
    have joined : ((partitions.zip parts).map grown) =
        List.zipWith (· ++ ·) partitions (parts.map (List.map (· + size * rounds))) := by
      rw [← zipped, List.zipWith_map_right]
    rw [joined]
    refine (Differencing.zipWith_flatten (by simpa using same)).trans ((dealt.covers.append shifted).trans (.of_eq ?_))
    rw [List.range_eq_range', List.range_eq_range', Nat.succ_mul]
    simpa using @List.range'_append_1 0 (rounds * size) size
  case sizes =>
    intro partition member
    obtain ⟨pair, among, rfl⟩ := List.mem_map.mp member
    rw [List.length_append, List.length_map, Nat.add_mul, dealt.sizes _ (of_pair among).1,
      sizes rfl _ (of_pair among).2, Nat.succ_mul]
  case even =>
    intro b small partition member
    obtain ⟨pair, among, rfl⟩ := List.mem_map.mp member
    by_cases last : b = rounds
    · rw [last, now among, List.length_map, sizes rfl _ (of_pair among).2]
    · rw [before among (by omega), dealt.even b (by omega) _ (of_pair among).1]
  case near =>
    intro b small d bound
    rw [List.map_map]
    by_cases last : b = rounds
    · subst last
      have loads : (partitions.zip parts).map ((fun partition => load works (ofMinibatch size b partition)) ∘ grown) =
          parts.map (load ((works.drop (b * size)).take size)) := by
        conv_rhs => rw [← List.map_snd_zip same.ge, List.map_map]
        refine List.map_congr_left fun pair among => ?_
        rw [Function.comp_apply, now among, Nat.mul_comm, load_shifted (inside _ (of_pair among).2)]
        rfl
      rw [loads]
      exact near d bound
    · have loads : (partitions.zip parts).map ((fun partition => load works (ofMinibatch size b partition)) ∘ grown) =
          partitions.map fun partition => load works (ofMinibatch size b partition) := by
        conv_rhs => rw [← List.map_fst_zip same.le, List.map_map]
        refine List.map_congr_left fun pair among => ?_
        rw [Function.comp_apply, before among (by omega)]
        rfl
      rw [loads]
      exact dealt.near b (by omega) d bound

theorem dealt_run (positive : 1 ≤ k) (divides : k ∣ size) (filled : 1 ≤ size) (within : rounds * size ≤ works.length) :
    ∃ partitions, (List.range rounds).foldlM (minibatchPartitions works k size) (List.replicate k []) = .ok partitions ∧
      Dealt works size k rounds partitions := by
  induction rounds with
  | zero => exact ⟨_, rfl, dealt_none works size k⟩
  | succ rounds ih =>
    obtain ⟨partitions, ran, dealt⟩ := ih ((Nat.mul_le_mul_right size (Nat.le_succ rounds)).trans within)
    obtain ⟨next, stepped, more⟩ := dealt.step positive divides filled within
    refine ⟨next, ?_, more⟩
    rw [List.range_succ, List.foldlM_append, ran, ok_bind, List.foldlM_cons, stepped]
    rfl

theorem single_minibatch {parts : List (List Nat)} (returned : getSeqlenBalancedPartitions works k true = .ok parts)
    (count : parts.length = k) :
    minibatchPartitions works k works.length (List.replicate k []) 0 = .ok parts := by
  have whole : List.zipWith (fun partition part => partition ++ part.map (· + works.length * 0))
      (List.replicate k []) parts = parts := by
    refine List.ext_getElem (by simp [count]) fun i _ _ => ?_
    simp
  rw [minibatchPartitions, Nat.zero_mul, List.drop_zero, List.take_length, returned, ok_bind, whole]
  rfl

theorem orderWithin_perm (workloads partition : List Nat) : (orderWithin workloads partition).Perm partition := by
  refine .trans ?_ (List.mergeSort_perm partition fun x y =>
    decide (toLex (workloads.getD x 0, x) ≤ toLex (workloads.getD y 0, y)))
  exact ((List.reverse_perm _).append_left _).trans (stride_split _)

theorem Dealt.ordered (dealt : Dealt works size k rounds partitions) {f : List Nat → List Nat}
    (perm : ∀ partition, (f partition).Perm partition) : Dealt works size k rounds (partitions.map f) where
  count := by rw [List.length_map, dealt.count]
  covers := by
    refine .trans ?_ dealt.covers
    rw [← List.flatMap_def]
    refine (List.Perm.flatMap_left _ fun partition _ => perm partition).trans (.of_eq ?_)
    rw [List.flatMap_id']
  sizes partition member := by
    obtain ⟨unsorted, inside, rfl⟩ := List.mem_map.mp member
    rw [(perm unsorted).length_eq, dealt.sizes unsorted inside]
  even b small partition member := by
    obtain ⟨unsorted, inside, rfl⟩ := List.mem_map.mp member
    rw [ofMinibatch, ((perm unsorted).filter _).length_eq, ← ofMinibatch, dealt.even b small unsorted inside]
  near b small d bound := by
    rw [List.map_map]
    have loads : partitions.map ((fun partition => load works (ofMinibatch size b partition)) ∘ f) =
        partitions.map fun partition => load works (ofMinibatch size b partition) :=
      List.map_congr_left fun partition _ => load_perm ((perm partition).filter _)
    rw [loads]
    exact dealt.near b small d bound

end Minibatches

section Reordered

variable {α : Type} {batch : List α} {order : List Nat}

theorem reorder_ok (inside : Inside batch order) (filled : order ≠ []) :
    reorder batch order = .ok (gather batch order) := by
  rw [reorder, if_neg filled, indexRows_ok inside]

theorem chunks_flatten (pieces : List (List α)) {size : Nat} (each : ∀ piece ∈ pieces, piece.length = size) :
    ((List.range pieces.length).map fun i => (pieces.flatten.drop (i * size)).take size) = pieces := by
  induction pieces with
  | nil => rfl
  | cons piece pieces ih =>
    obtain ⟨first, rest⟩ := List.forall_mem_cons.mp each
    rw [List.length_cons, List.range_succ_eq_map, List.map_cons, List.map_map, List.flatten_cons, Nat.zero_mul,
      List.drop_zero, List.take_left' first]
    refine congrArg (piece :: ·) (Eq.trans (List.map_congr_left fun i _ => ?_) (ih rest))
    rw [Function.comp_apply, Nat.succ_mul, Nat.add_comm, ← List.drop_drop, List.drop_left' first]

theorem chunkRows_gather {partitions : List (List Nat)} {k : Nat} (count : partitions.length = k)
    (inside : Inside batch partitions.flatten)
    (sizes : ∀ partition ∈ partitions, partition.length * k = partitions.flatten.length) :
    chunkRows (gather batch partitions.flatten) k = partitions.map (gather batch) := by
  have pieces : ∀ piece ∈ partitions.map (gather batch),
      piece.length = (gather batch partitions.flatten).length / k := by
    intro piece member
    obtain ⟨partition, among, rfl⟩ := List.mem_map.mp member
    have within : Inside batch partition := fun i at_ => inside i (List.mem_flatten.mpr ⟨partition, among, at_⟩)
    have positive : 0 < k := by
      rw [← count]
      exact List.length_pos_of_mem among
    rw [Reordering.gather_length within, Reordering.gather_length inside, ← sizes partition among,
      Nat.mul_div_cancel _ positive]
  have cut := chunks_flatten (partitions.map (gather batch)) pieces
  rwa [List.length_map, count, ← Reordering.gather_flatten] at cut

theorem computeGrpo_gather {K : Type} [Field K] (complete : Complete batch order) (grpo : GrpoArgs K)
    (response : α → Response ι K) :
    computeGrpoOutcomeAdvantage grpo ((gather batch order).map response) =
      (computeGrpoOutcomeAdvantage grpo (batch.map response)).map (gather · order) := by
  have same (r : Response ι K) :
      advantage grpo (groupOf ((gather batch order).map response) r.uid) r.score =
        advantage grpo (groupOf (batch.map response) r.uid) r.score :=
    advantage_perm grpo (groupOf_perm (complete.gather_perm.map response) r.uid) r.score
  rw [computeGrpo_eq, computeGrpo_eq, Except.map, Reordering.gather_map, Reordering.gather_map]
  simp only [same]

end Reordered

section Blocks

variable {α : Type} {args : BalanceArgs} {seqLen : α → Nat} {uid : Option (α → ι)} {batch : List α} {k : Nat}

structure InBlocks (args : BalanceArgs) (k n : Nat) : Prop where
  divides : k ∣ args.blockSize n
  some : 1 ≤ n / args.blockSize n

theorem globalPartitions_blocks (ungrouped : args.usePrefixGrouper = false ∨ uid = none) (seqlens : List Nat) :
    globalPartitions args seqlens (uid.map batch.map) k =
      if args.keepMinibatch then
        if args.ppoMiniBatchSize = 0 then .error .zeroDivisionError
        else
          (List.range (seqlens.length / args.ppoMiniBatchSize)).foldlM
            (minibatchPartitions (seqlens.map calculateWorkload) k args.ppoMiniBatchSize) (List.replicate k [])
      else getSeqlenBalancedPartitions (seqlens.map calculateWorkload) k true := by
  rw [globalPartitions]
  intro uids on given
  rcases ungrouped with off | rfl
  · rw [off] at on
    cases on
  · cases given

theorem globalPartitions_ok (ungrouped : args.usePrefixGrouper = false ∨ uid = none) (positive : 1 ≤ k)
    {seqlens : List Nat} (blocks : InBlocks args k seqlens.length) :
    ∃ partitions, globalPartitions args seqlens (uid.map batch.map) k = .ok partitions ∧
      Dealt (seqlens.map calculateWorkload) (args.blockSize seqlens.length) k
        (seqlens.length / args.blockSize seqlens.length) partitions := by
  have filled : 1 ≤ args.blockSize seqlens.length := by
    by_contra zero
    have none := blocks.some
    rw [Nat.lt_one_iff.mp (Nat.lt_of_not_le zero), Nat.div_zero] at none
    omega
  rw [globalPartitions_blocks ungrouped]
  obtain ⟨divides, some⟩ := blocks
  by_cases kept : args.keepMinibatch
  · rw [BalanceArgs.blockSize, if_pos kept] at divides filled some ⊢
    rw [if_pos kept, if_neg (by omega)]
    exact dealt_run positive divides filled (by rw [List.length_map]; exact Nat.div_mul_le_self _ _)
  · rw [BalanceArgs.blockSize, if_neg kept] at divides filled some ⊢
    rw [if_neg kept, Nat.div_self filled]
    have length : (seqlens.map calculateWorkload).length = seqlens.length := List.length_map _
    obtain ⟨parts, returned, is, -⟩ := @getSeqlenBalancedPartitions_ok (seqlens.map calculateWorkload) k true positive
      (by rw [length]; exact Nat.le_of_dvd filled divides) (fun _ => by rwa [length])
    obtain ⟨next, stepped, dealt⟩ := (dealt_none (seqlens.map calculateWorkload) seqlens.length k).step positive divides
      filled (by rw [length, Nat.zero_add, Nat.one_mul])
    rw [← length, single_minibatch returned is.count] at stepped
    obtain rfl := Except.ok.inj stepped
    exact ⟨parts, returned, dealt⟩

theorem orderedPartitions_dealt {works : List Nat} {size rounds : Nat} {partitions : List (List Nat)}
    (dealt : Dealt works size k rounds partitions) (seqlens : List Nat) :
    Dealt works size k rounds (orderedPartitions args seqlens partitions) := by
  rw [orderedPartitions]
  split
  · exact dealt
  · exact dealt.ordered (orderWithin_perm _)

theorem balanceBatch_ok (ungrouped : args.usePrefixGrouper = false ∨ uid = none) (positive : 1 ≤ k)
    (blocks : InBlocks args k batch.length) :
    ∃ partitions, balanceBatch args seqLen uid k batch = .ok (partitions, gather batch partitions.flatten) ∧
      Inside batch partitions.flatten ∧
      Dealt ((batch.map seqLen).map calculateWorkload) (args.blockSize batch.length) k
        (batch.length / args.blockSize batch.length) partitions := by
  have length : (batch.map seqLen).length = batch.length := List.length_map _
  obtain ⟨partitions, made, dealt⟩ := globalPartitions_ok ungrouped positive (by rwa [length])
  rw [length] at dealt
  have dealt := @orderedPartitions_dealt args k _ _ _ _ dealt (batch.map seqLen)
  have inside : Inside batch (orderedPartitions args (batch.map seqLen) partitions).flatten := fun x member =>
    (List.mem_range.mp (dealt.covers.mem_iff.mp member)).trans_le (Nat.div_mul_le_self _ _)
  have filled : (orderedPartitions args (batch.map seqLen) partitions).flatten ≠ [] := by
    intro empty
    have total := dealt.covers.length_eq
    rw [empty, List.length_range, List.length_nil, eq_comm, Nat.mul_eq_zero] at total
    rcases total with none | zero
    · have := blocks.some
      omega
    · have := blocks.some
      rw [zero, Nat.div_zero] at this
      omega
  refine ⟨_, ?_, inside, dealt⟩
  rw [balanceBatch, made, ok_bind]
  simp only [reorder_ok inside filled, ok_bind]
  rfl

theorem globalPartitions_error (ungrouped : args.usePrefixGrouper = false ∨ uid = none) (positive : 1 ≤ k)
    {seqlens : List Nat} (odd : ¬ InBlocks args k seqlens.length) :
    (∃ error, globalPartitions args seqlens (uid.map batch.map) k = .error error) ∨
      globalPartitions args seqlens (uid.map batch.map) k = .ok (List.replicate k []) := by
  rw [globalPartitions_blocks ungrouped]
  by_cases kept : args.keepMinibatch
  · rw [if_pos kept]
    split
    · exact .inl ⟨_, rfl⟩
    · next some =>
      by_cases short : seqlens.length / args.ppoMiniBatchSize = 0
      · right
        rw [short]
        rfl
      · left
        have first : ((seqlens.map calculateWorkload).drop (0 * args.ppoMiniBatchSize)).take args.ppoMiniBatchSize =
            (seqlens.map calculateWorkload).take args.ppoMiniBatchSize := by rw [Nat.zero_mul, List.drop_zero]
        have length : ((seqlens.map calculateWorkload).take args.ppoMiniBatchSize).length = args.ppoMiniBatchSize := by
          have within := (Nat.div_pos_iff.mp (Nat.pos_of_ne_zero short)).2
          rw [List.length_take, List.length_map]
          omega
        obtain ⟨error, raised⟩ := @getSeqlenBalancedPartitions_error
          ((seqlens.map calculateWorkload).take args.ppoMiniBatchSize) k true fun fair => odd <| by
            have divides := fair.2.2 rfl
            rw [length] at divides
            constructor
            · rwa [BalanceArgs.blockSize, if_pos kept]
            · rw [BalanceArgs.blockSize, if_pos kept]
              exact Nat.pos_of_ne_zero short
        obtain ⟨rounds, several⟩ := Nat.exists_eq_succ_of_ne_zero short
        refine ⟨error, ?_⟩
        rw [several, List.range_succ_eq_map, List.foldlM_cons, minibatchPartitions, first, raised]
        rfl
  · rw [if_neg kept]
    refine .inl (getSeqlenBalancedPartitions_error fun fair => odd ?_)
    rw [List.length_map] at fair
    constructor
    · rw [BalanceArgs.blockSize, if_neg kept]
      exact fair.2.2 rfl
    · rw [BalanceArgs.blockSize, if_neg kept, Nat.div_self (by omega)]

theorem balanceBatch_error (ungrouped : args.usePrefixGrouper = false ∨ uid = none) (positive : 1 ≤ k)
    (odd : ¬ InBlocks args k batch.length) : ∃ error, balanceBatch args seqLen uid k batch = .error error := by
  rw [← List.length_map seqLen] at odd
  rcases @globalPartitions_error _ _ _ _ uid batch k ungrouped positive _ odd with ⟨error, raised⟩ | empty
  · refine ⟨error, ?_⟩
    rw [balanceBatch, raised, error_bind]
  · refine ⟨.indexError, ?_⟩
    have nothing := (@orderedPartitions_dealt args k _ _ _ _ (dealt_none [] 0 k) (batch.map seqLen)).covers
    rw [Nat.zero_mul, List.range_zero, List.perm_nil] at nothing
    rw [balanceBatch, empty, ok_bind]
    simp only [nothing]
    rfl

end Blocks

-- The rows that are shared out; those behind the last whole block are dropped.
def BalanceArgs.kept {α : Type} (args : BalanceArgs) (batch : List α) : List α :=
  batch.take (batch.length / args.blockSize batch.length * args.blockSize batch.length)

-- Shared out row by row, a batch is reordered exactly when its mini-batches can be divided among the
-- ranks. Each rank then gets its share of every mini-batch when the batch is cut into pieces, and the
-- rows kept have the advantages they had among themselves.
theorem balanceBatch_correct {α K : Type} [Field K] (args : BalanceArgs) (seqLen : α → Nat) (uid : Option (α → ι))
    (batch : List α) (k : Nat) (ungrouped : args.usePrefixGrouper = false ∨ uid = none) (positive : 1 ≤ k) :
    ((∃ result, balanceBatch args seqLen uid k batch = .ok result) ↔ InBlocks args k batch.length) ∧
    ∀ partitions reordered, balanceBatch args seqLen uid k batch = .ok (partitions, reordered) →
      Dealt ((batch.map seqLen).map calculateWorkload) (args.blockSize batch.length) k
        (batch.length / args.blockSize batch.length) partitions ∧
      chunkRows reordered k = partitions.map (gather batch) ∧ reordered.Perm (args.kept batch) ∧
      ∀ (grpo : GrpoArgs K) (response : α → Response ι K),
        computeGrpoOutcomeAdvantage grpo (reordered.map response) =
          (computeGrpoOutcomeAdvantage grpo ((args.kept batch).map response)).map (gather · partitions.flatten) := by
  by_cases blocks : InBlocks args k batch.length
  · obtain ⟨made, returned, inside, dealt⟩ := @balanceBatch_ok _ _ _ args seqLen uid batch k ungrouped positive blocks
    refine ⟨⟨fun _ => blocks, fun _ => ⟨_, returned⟩⟩, fun partitions reordered same => ?_⟩
    obtain ⟨rfl, rfl⟩ := Prod.mk.inj (Except.ok.inj (returned.symm.trans same))
    have size : (args.kept batch).length =
        batch.length / args.blockSize batch.length * args.blockSize batch.length := by
      rw [BalanceArgs.kept, List.length_take, Nat.min_eq_left (Nat.div_mul_le_self _ _)]
    have complete : Complete (args.kept batch) made.flatten := by
      rw [Complete, size]
      exact dealt.covers
    have same : gather batch made.flatten = gather (args.kept batch) made.flatten :=
      (Reordering.gather_take fun i member => List.mem_range.mp (dealt.covers.mem_iff.mp member)).symm
    refine ⟨dealt, chunkRows_gather dealt.count inside fun partition member => ?_, ?_, fun grpo response => ?_⟩
    · rw [dealt.sizes partition member, dealt.covers.length_eq, List.length_range]
    · rw [same]
      exact complete.gather_perm
    · rw [same]
      exact computeGrpo_gather complete grpo response
  · obtain ⟨error, raised⟩ := @balanceBatch_error _ _ _ args seqLen uid batch k ungrouped positive blocks
    refine ⟨⟨?_, fun holds => absurd holds blocks⟩, ?_⟩
    · rintro ⟨result, returned⟩
      cases raised.symm.trans returned
    · intro partitions reordered returned
      cases raised.symm.trans returned

def oneToken (reward : Nat) : Response Nat ℚ := ⟨reward % 2, [reward], [1]⟩

-- The fifth row is dropped.
theorem balanceBatch_correct_five : ∃ partitions reordered,
    balanceBatch ⟨false, true, 2⟩ id (some id) 2 [3, 1, 2, 5, 4] = .ok (partitions, reordered) ∧
      Dealt [73737, 24577, 49156, 122905, 98320] 2 2 2 partitions ∧
      chunkRows reordered 2 = partitions.map (gather [3, 1, 2, 5, 4]) ∧ reordered.Perm [3, 1, 2, 5] ∧
      computeGrpoOutcomeAdvantage ⟨id, 1, false⟩ (reordered.map oneToken) =
        (computeGrpoOutcomeAdvantage ⟨id, 1, false⟩ ([3, 1, 2, 5].map oneToken)).map
          (gather · partitions.flatten) := by
  obtain ⟨exact, each⟩ := @balanceBatch_correct Nat _ Nat ℚ _ ⟨false, true, 2⟩ id (some id) [3, 1, 2, 5, 4] 2 (.inl rfl)
    (by decide)
  obtain ⟨⟨partitions, reordered⟩, returned⟩ := exact.mpr ⟨by decide, by decide⟩
  obtain ⟨dealt, cut, perm, advantages⟩ := each partitions reordered returned
  exact ⟨partitions, reordered, returned, dealt, cut, perm, advantages _ _⟩

section Groups

theorem step_new {scan : UidScan ι} {uid : ι} (new : some uid ≠ scan.currentUid) (i : Nat) :
    scan.step i uid = ⟨scan.closed, some uid, [i]⟩ := by rw [UidScan.step, if_pos new, UidScan.closed]

@[simp] theorem scanUids_cons (uid : ι) (i : Nat) (uids : List (ι × Nat)) (scan : UidScan ι) :
    scanUids ((uid, i) :: uids) scan = scanUids uids (scan.step i uid) := rfl

theorem scanUids_append (uids more : List (ι × Nat)) (scan : UidScan ι) :
    scanUids (uids ++ more) scan = scanUids more (scanUids uids scan) := List.foldl_append

theorem scan_same {uid : ι} (scan : UidScan ι) (current : scan.currentUid = some uid) (n start : Nat) :
    scanUids ((List.replicate n uid).zipIdx start) scan =
      { scan with currentIndices := scan.currentIndices ++ List.range' start n } := by
  induction n generalizing scan start with
  | zero => simp [scanUids]
  | succ n ih =>
    have step : scan.step start uid = { scan with currentIndices := scan.currentIndices ++ [start] } :=
      if_neg (by simp [current])
    rw [List.replicate_succ, List.zipIdx_cons, scanUids_cons,
      ih (scan.step start uid) (by rw [step]; exact current), step, List.range'_succ, List.append_assoc]
    rfl

theorem scan_groups {ids : List ι} (distinct : ids.Nodup) {n : Nat} (several : 1 ≤ n) (start : Nat)
    (scan : UidScan ι) (fresh : ∀ id ∈ ids, scan.currentUid ≠ some id) :
    (scanUids ((ids.flatMap (List.replicate n)).zipIdx start) scan).closed =
      scan.closed ++ (List.range ids.length).map fun g => List.range' (start + g * n) n := by
  induction ids generalizing start scan with
  | nil => simp [scanUids]
  | cons id ids ih =>
    obtain ⟨new, distinct⟩ := List.nodup_cons.mp distinct
    obtain ⟨first, -⟩ := List.forall_mem_cons.mp fresh
    obtain ⟨more, rfl⟩ := Nat.exists_eq_add_of_le' several
    have run : scanUids ((List.replicate (more + 1) id).zipIdx start) scan =
        ⟨scan.closed, some id, List.range' start (more + 1)⟩ := by
      rw [List.replicate_succ, List.zipIdx_cons, scanUids_cons, step_new first.symm, scan_same _ rfl, List.range'_succ]
      rfl
    have closed : (⟨scan.closed, some id, List.range' start (more + 1)⟩ : UidScan ι).closed =
        scan.closed ++ [List.range' start (more + 1)] := if_neg (by simp)
    have others : ∀ other ∈ ids, some id ≠ some other := fun other member same => new (Option.some.inj same ▸ member)
    rw [List.flatMap_cons, List.zipIdx_append, scanUids_append, run, List.length_replicate,
      ih distinct _ _ others, closed, List.length_cons, List.range_succ_eq_map, List.map_cons, List.map_map,
      List.append_assoc, Nat.zero_mul, Nat.add_zero]
    refine congrArg (fun rest => scan.closed ++ List.range' start (more + 1) :: rest) ?_
    refine List.map_congr_left fun g _ => ?_
    rw [Function.comp_apply, Nat.succ_mul]
    congr 1
    omega

theorem uidGroups_repeated {ids : List ι} (distinct : ids.Nodup) {n : Nat} (several : 1 ≤ n) :
    uidGroups (ids.flatMap (List.replicate n)) = (List.range ids.length).map fun g => List.range' (g * n) n := by
  rw [uidGroups, scan_groups distinct several 0 _ fun id _ same => by cases same]
  simp [UidScan.closed]

theorem dedup_repeated {ids : List ι} (distinct : ids.Nodup) {n : Nat} (several : 1 ≤ n) :
    (ids.flatMap (List.replicate n)).dedup.length = ids.length := by
  refine List.Perm.length_eq ((List.perm_ext_iff_of_nodup (List.nodup_dedup _) distinct).mpr fun id => ?_)
  rw [List.mem_dedup, List.mem_flatMap]
  constructor
  · rintro ⟨other, member, inside⟩
    rwa [List.eq_of_mem_replicate inside]
  · exact fun member => ⟨id, member, List.mem_replicate.mpr ⟨by omega, rfl⟩⟩

variable {seqlens : List Nat} {ids : List ι} {n k : Nat}

omit [DecidableEq ι] in
theorem repeated_length (ids : List ι) (n : Nat) : (ids.flatMap (List.replicate n)).length = ids.length * n := by
  induction ids with
  | nil => simp
  | cons id ids ih =>
    rw [List.flatMap_cons, List.length_append, ih, List.length_replicate, List.length_cons, Nat.succ_mul,
      Nat.add_comm]

theorem expandGroups_increasing {groups : List Nat} (increasing : groups.Pairwise (· < ·)) :
    (expandGroups n groups).Pairwise (· < ·) := by
  rw [expandGroups, List.pairwise_flatMap]
  refine ⟨fun g _ => List.pairwise_lt_range', increasing.imp fun {g later} below x xIn y yIn => ?_⟩
  have last := (List.mem_range'_1.mp xIn).2
  have first := (List.mem_range'_1.mp yIn).1
  calc x < g * n + n := last
    _ = (g + 1) * n := (Nat.succ_mul g n).symm
    _ ≤ later * n := Nat.mul_le_mul_right n below
    _ ≤ y := first

theorem ascending_of_increasing {partition : List Nat} (increasing : partition.Pairwise (· < ·)) :
    ascending partition = partition :=
  List.mergeSort_of_pairwise (increasing.imp fun below => decide_eq_true below.le)

omit [DecidableEq ι] in
theorem groupWorkloads_repeated (several : 1 ≤ n) (length : seqlens.length = ids.length * n) :
    (((List.range ids.length).map fun g => List.range' (g * n) n).map (load (seqlens.map calculateWorkload))) =
      groupWorkloads n seqlens := by
  rw [groupWorkloads, length, Nat.mul_div_cancel _ several, List.map_map]
  exact List.map_congr_left fun g _ => load_range' _ _ _

theorem getGroupBalancedPartitions_ok (distinct : ids.Nodup) (several : 1 ≤ n) (some : ids ≠ []) (positive : 1 ≤ k)
    (divides : k ∣ ids.length) (length : seqlens.length = ids.length * n) :
    ∃ groups : List (List Nat),
      getGroupBalancedPartitions seqlens (ids.flatMap (List.replicate n)) k = .ok (groups.map (expandGroups n)) ∧
        IsPartition ids.length k groups ∧ (∀ group ∈ groups, group.length * k = ids.length) ∧
        IsMicroBatching seqlens n k (groups.map (expandGroups n)) := by
  have count : seqlens.length / n = ids.length := by rw [length, Nat.mul_div_cancel _ several]
  have enough : k ≤ ids.length := Nat.le_of_dvd (List.length_pos_iff.mpr some) divides
  have works : (groupWorkloads n seqlens).length = ids.length := by rw [groupWorkloads_length, count]
  obtain ⟨groups, returned, is, sizes, near⟩ := @getSeqlenBalancedPartitions_ok (groupWorkloads n seqlens) k
    true positive (by rwa [works]) (fun _ => by rwa [works])
  rw [works] at is sizes
  have expanded : groups.mapM (fun groupPartition => do
        let members ← indexRows ((List.range ids.length).map fun g => List.range' (g * n) n) groupPartition
        return ascending members.flatten) = .ok (groups.map (expandGroups n)) := by
    refine mapM_ok fun group member => ?_
    have inside : ∀ g ∈ group, g < ids.length := fun g among =>
      List.mem_range.mp (is.covers.mem_iff.mp (List.mem_flatten.mpr ⟨group, member, among⟩))
    rw [indexRows_ok (fun g among => by simpa using inside g among), ok_bind, Reordering.gather_map,
      Reordering.gather_of_range inside, ← List.flatMap_def, ← expandGroups,
      ascending_of_increasing (expandGroups_increasing (is.increasing group member))]
    rfl
  refine ⟨groups, ?_, is, sizes rfl, ?_⟩
  · have many : k ≤ ((List.range ids.length).map fun g => List.range' (g * n) n).length := by simpa using enough
    rw [getGroupBalancedPartitions, require_ok.mpr (by rw [length, repeated_length]), ok_bind,
      uidGroups_repeated distinct several]
    simp only [require_ok.mpr many, ok_bind, groupWorkloads_repeated several length, returned, expanded]
  · rw [← count] at is
    refine isMicroBatching_of_partition several (length ▸ Nat.dvd_mul_left n ids.length) is fun d bound => near d ?_
    exact fun work member other _ => (bound work member).trans (Nat.le_add_left d other)

omit [DecidableEq ι] in
theorem gather_repeated {group : List Nat} (inside : Inside ids group) :
    gather (ids.flatMap (List.replicate n)) (expandGroups n group) = (gather ids group).flatMap (List.replicate n) := by
  have one {g : Nat} (within : g < ids.length) :
      gather (ids.flatMap (List.replicate n)) (List.range' (g * n) n) = List.replicate n ids[g] := by
    have fits : g * n + n ≤ (ids.flatMap (List.replicate n)).length := by
      rw [repeated_length, ← Nat.succ_mul]
      exact Nat.mul_le_mul_right n within
    have split : ids.flatMap (List.replicate n) =
        (ids.take g).flatMap (List.replicate n) ++
          (List.replicate n ids[g] ++ (ids.drop (g + 1)).flatMap (List.replicate n)) := by
      rw [← List.flatMap_cons, ← List.drop_eq_getElem_cons within, ← List.flatMap_append, List.take_append_drop]
    have start : ((ids.take g).flatMap (List.replicate n)).length = g * n := by
      rw [repeated_length, List.length_take_of_le within.le]
    rw [Reordering.gather_range' _ fits, split, List.drop_left' start, List.take_left' List.length_replicate]
  induction group with
  | nil => rfl
  | cons g group ih =>
    obtain ⟨within, rest⟩ := List.forall_mem_cons.mp inside
    rw [expandGroups, List.flatMap_cons, ← expandGroups, Reordering.gather_append, one within, ih rest,
      Reordering.gather_cons group within, List.flatMap_cons]

variable {α : Type} {args : BalanceArgs} {seqLen : α → Nat} {uid : α → ι} {batch : List α}

theorem balanceBatch_grouped (grouper : args.usePrefixGrouper = true) (positive : 1 ≤ k) :
    balanceBatch args seqLen (some uid) k batch = do
      let partitions ←
        if (batch.map uid).dedup.length % k ≠ 0 then
          .error (.valueError (unevenGroups (batch.map uid).dedup.length k batch.length))
        else getGroupBalancedPartitions (batch.map seqLen) (batch.map uid) k
      let reordered ← reorder batch partitions.flatten
      return (partitions, reordered) := by
  have made : globalPartitions args (batch.map seqLen) (some (batch.map uid)) k =
      if (batch.map uid).dedup.length % k ≠ 0 then
        .error (.valueError (unevenGroups (batch.map uid).dedup.length k batch.length))
      else getGroupBalancedPartitions (batch.map seqLen) (batch.map uid) k := by
    rw [globalPartitions, if_neg (by omega), List.length_map]
    exact grouper
  rw [balanceBatch, Option.map_some, made]
  simp only [orderedPartitions, if_pos grouper]
  split <;> rfl

structure WholePrompts (ids : List ι) (n k : Nat) (uids : List (List ι)) (shares : List (List ι)) : Prop where
  count : shares.length = k
  covers : shares.flatten.Perm ids
  sizes : ∀ share ∈ shares, share.length * k = ids.length
  rows : uids = shares.map fun share => share.flatMap (List.replicate n)

end Groups

section Prompts

variable {α : Type} {args : BalanceArgs} {seqLen : α → Nat} {uid : α → ι} {batch : List α} {ids : List ι} {k n : Nat}

theorem balanceBatch_groups (grouper : args.usePrefixGrouper = true) (distinct : ids.Nodup) (several : 1 ≤ n)
    (some_ : ids ≠ []) (prompts : batch.map uid = ids.flatMap (List.replicate n)) (positive : 1 ≤ k)
    (divides : k ∣ ids.length) :
    ∃ groups : List (List Nat),
      balanceBatch args seqLen (some uid) k batch =
        .ok (groups.map (expandGroups n), gather batch (groups.map (expandGroups n)).flatten) ∧
      IsPartition ids.length k groups ∧ (∀ group ∈ groups, group.length * k = ids.length) ∧
        IsMicroBatching (batch.map seqLen) n k (groups.map (expandGroups n)) := by
  have total : batch.length = ids.length * n := by rw [← List.length_map uid, prompts, repeated_length]
  obtain ⟨groups, made, is, sizes, batching⟩ := @getGroupBalancedPartitions_ok _ _ (batch.map seqLen) ids n k distinct
    several some_ positive divides (by rw [List.length_map, total])
  have complete : Complete batch (groups.map (expandGroups n)).flatten := by simpa [Complete] using batching.complete
  have filled : (groups.map (expandGroups n)).flatten ≠ [] := by
    intro empty
    have none := complete.length_eq
    rw [empty, total, List.length_nil, eq_comm, Nat.mul_eq_zero, List.length_eq_zero_iff] at none
    exact none.elim some_ (by omega)
  refine ⟨groups, ?_, is, sizes, batching⟩
  rw [balanceBatch_grouped grouper positive, prompts, dedup_repeated distinct several]
  simp only [Nat.mod_eq_zero_of_dvd divides, ne_eq, not_true_eq_false, if_false, made, ok_bind,
    reorder_ok complete.inside filled]
  rfl

structure Shareable (args : BalanceArgs) (k n : Nat) (ids : List ι) : Prop where
  positive : 1 ≤ k
  grouped : args.usePrefixGrouper = true → ids.Nodup ∧ ids ≠ [] ∧ k ∣ ids.length
  blocks : args.usePrefixGrouper = false →
    InBlocks args k (ids.length * n) ∧ args.blockSize (ids.length * n) ∣ ids.length * n

theorem Shareable.reorders (shareable : Shareable args k n ids) (several : 1 ≤ n)
    (prompts : batch.map uid = ids.flatMap (List.replicate n)) :
    ∃ partitions, balanceBatch args seqLen (some uid) k batch = .ok (partitions, gather batch partitions.flatten) ∧
      Complete batch partitions.flatten := by
  have total : batch.length = ids.length * n := by rw [← List.length_map uid, prompts, repeated_length]
  cases grouper : args.usePrefixGrouper with
  | true =>
    obtain ⟨distinct, some_, divides⟩ := shareable.grouped grouper
    obtain ⟨groups, made, -, -, batching⟩ := @balanceBatch_groups _ _ _ args seqLen uid batch ids k n grouper distinct
      several some_ prompts shareable.positive divides
    exact ⟨_, made, by simpa [Complete] using batching.complete⟩
  | false =>
    obtain ⟨blocks, whole⟩ := shareable.blocks grouper
    rw [← total] at blocks whole
    obtain ⟨partitions, made, -, dealt⟩ := @balanceBatch_ok _ _ _ args seqLen (some uid) batch k (.inl grouper)
      shareable.positive blocks
    refine ⟨partitions, made, ?_⟩
    rw [Complete, ← Nat.div_mul_cancel whole]
    exact dealt.covers

end Prompts

-- With the prefix grouper each rank gets whole prompts, and no row has its advantage changed.
theorem groupBalance_correct {α K : Type} [Field K] (args : BalanceArgs) (seqLen : α → Nat) (uid : α → ι)
    (batch : List α) (k n : Nat) (ids : List ι) (grouper : args.usePrefixGrouper = true) (distinct : ids.Nodup)
    (several : 1 ≤ n) (some_ : ids ≠ []) (prompts : batch.map uid = ids.flatMap (List.replicate n)) (positive : 1 ≤ k) :
    ((∃ result, balanceBatch args seqLen (some uid) k batch = .ok result) ↔ k ∣ ids.length) ∧
    ∀ partitions reordered, balanceBatch args seqLen (some uid) k batch = .ok (partitions, reordered) →
      IsMicroBatching (batch.map seqLen) n k partitions ∧
      (∃ shares, WholePrompts ids n k ((chunkRows reordered k).map (List.map uid)) shares) ∧
      ∀ (grpo : GrpoArgs K) (response : α → Response ι K),
        computeGrpoOutcomeAdvantage grpo (reordered.map response) =
          (computeGrpoOutcomeAdvantage grpo (batch.map response)).map (gather · partitions.flatten) := by
  by_cases divides : k ∣ ids.length
  · obtain ⟨groups, made, is, sizes, batching⟩ := @balanceBatch_groups _ _ _ args seqLen uid batch ids k n grouper
      distinct several some_ prompts positive divides
    have complete : Complete batch (groups.map (expandGroups n)).flatten := by simpa [Complete] using batching.complete
    have total : batch.length = ids.length * n := by rw [← List.length_map uid, prompts, repeated_length]
    have expanded (group : List Nat) : (expandGroups n group).length = group.length * n := by simp [expandGroups]
    have cut : chunkRows (gather batch (groups.map (expandGroups n)).flatten) k =
        (groups.map (expandGroups n)).map (gather batch) := by
      refine chunkRows_gather batching.count complete.inside fun partition member => ?_
      obtain ⟨group, among, rfl⟩ := List.mem_map.mp member
      rw [complete.length_eq, expanded, total, ← sizes group among, Nat.mul_right_comm]
    have inside : ∀ group ∈ groups, Inside ids group := fun group member g among =>
      List.mem_range.mp (is.covers.mem_iff.mp (List.mem_flatten.mpr ⟨group, member, among⟩))
    refine ⟨⟨fun _ => divides, fun _ => ⟨_, made⟩⟩, fun partitions reordered same => ?_⟩
    obtain ⟨rfl, rfl⟩ := Prod.mk.inj (Except.ok.inj (made.symm.trans same))
    refine ⟨batching, ⟨groups.map (gather ids), ?_⟩, computeGrpo_gather complete⟩
    constructor
    case count => rw [List.length_map, is.count]
    case covers =>
      rw [← Reordering.gather_flatten]
      exact Complete.gather_perm is.covers
    case sizes =>
      intro share member
      obtain ⟨group, among, rfl⟩ := List.mem_map.mp member
      rw [Reordering.gather_length (inside group among), sizes group among]
    case rows =>
      rw [cut, List.map_map, List.map_map, List.map_map]
      refine List.map_congr_left fun group member => ?_
      simp only [Function.comp_apply]
      rw [← Reordering.gather_map, prompts, gather_repeated (inside group member)]
  · have odd : ids.length % k ≠ 0 := fun even => divides (Nat.dvd_of_mod_eq_zero even)
    rw [balanceBatch_grouped grouper positive, prompts, dedup_repeated distinct several]
    simp only [odd, ne_eq, not_false_eq_true, if_true, error_bind]
    refine ⟨⟨?_, fun holds => absurd holds divides⟩, fun _ _ returned => by cases returned⟩
    rintro ⟨result, returned⟩
    cases returned

theorem groupBalance_correct_pairs : ∃ partitions reordered,
    balanceBatch ⟨true, false, 0⟩ Prod.snd (some Prod.fst) 2 [(7, 3), (7, 1), (8, 2), (8, 5)] =
        .ok (partitions, reordered) ∧
      IsMicroBatching [3, 1, 2, 5] 2 2 partitions ∧
      ∃ shares, WholePrompts [7, 8] 2 2 ((chunkRows reordered 2).map (List.map Prod.fst)) shares := by
  obtain ⟨exact, each⟩ := @groupBalance_correct Nat _ (Nat × Nat) ℚ _ ⟨true, false, 0⟩ Prod.snd Prod.fst
    [(7, 3), (7, 1), (8, 2), (8, 5)] 2 2 [7, 8] rfl (by decide) (by decide) (by decide) rfl (by decide)
  obtain ⟨⟨partitions, reordered⟩, returned⟩ := exact.mpr (by decide)
  obtain ⟨batching, shares, -⟩ := each partitions reordered returned
  exact ⟨partitions, reordered, returned, batching, shares⟩

end CotCompression.Verl
