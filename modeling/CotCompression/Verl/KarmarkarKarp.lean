import Mathlib.Algebra.BigOperators.Group.List.Basic
import Mathlib.Algebra.GroupWithZero.Nat
import Mathlib.Algebra.Order.Group.Nat
import Mathlib.Data.List.Lex
import Mathlib.Data.List.Nodup
import Mathlib.Data.Prod.Lex
import CotCompression.Generator.Python
import CotCompression.Shared.Differencing

set_option autoImplicit false

namespace CotCompression.Verl

open Text (lit decimal)
open Differencing (reduce Within Full Thin EmptiesLast crossed)

inductive Error where
  | assertionError (message : Text)
  | indexError
  | valueError (message : Text)
  | zeroDivisionError
  deriving DecidableEq

-- assert condition, message
def require (condition : Prop) [Decidable condition] (message : Text) : Except Error Unit :=
  if condition then .ok () else .error (.assertionError message)

theorem require_ok {condition : Prop} [Decidable condition] {message : Text} :
    require condition message = .ok () ↔ condition := by
  simp [require]

/-- The class Set of karmarkar_karp: pairs of an index and its value. -/
@[ext] structure ItemSet where
  sum : Nat
  items : List (Nat × Nat)
  sum_eq : sum = (items.map Prod.snd).sum

namespace ItemSet

def empty : ItemSet := ⟨0, [], rfl⟩

def add (s : ItemSet) (idx val : Nat) : ItemSet where
  sum := s.sum + val
  items := s.items ++ [(idx, val)]
  sum_eq := by simp [s.sum_eq]

def merge (s other : ItemSet) : ItemSet :=
  other.items.foldl (fun s (idx, val) => s.add idx val) s

-- What __lt__ compares: the sums, then the numbers of items, then the items.
def key (s : ItemSet) : Nat ×ₗ Nat ×ₗ List (Nat ×ₗ Nat) :=
  toLex (s.sum, toLex (s.items.length, s.items.map toLex))

def lt (s other : ItemSet) : Bool := decide (s.key < other.key)

theorem foldl_add_items (s : ItemSet) (items : List (Nat × Nat)) :
    (items.foldl (fun s (idx, val) => s.add idx val) s).items = s.items ++ items := by
  induction items generalizing s with
  | nil => simp
  | cons item items ih =>
    rw [List.foldl_cons, ih]
    simp [add]

@[simp] theorem merge_items (s other : ItemSet) : (s.merge other).items = s.items ++ other.items :=
  foldl_add_items s other.items

@[simp] theorem merge_sum (s other : ItemSet) : (s.merge other).sum = s.sum + other.sum := by
  rw [sum_eq, merge_items, List.map_append, List.sum_append, ← sum_eq, ← sum_eq]

theorem sum_le_of_key_le {s other : ItemSet} (below : s.key ≤ other.key) : s.sum ≤ other.sum := by
  rcases Prod.Lex.toLex_le_toLex.mp below with less | ⟨same, _⟩
  · exact less.le
  · exact same.le

theorem empty_of_key_le {s other : ItemSet} (below : s.key ≤ other.key) (empty : other.items = []) :
    s.items = [] := by
  have none : other.sum = 0 := by rw [sum_eq, empty]; rfl
  rcases Prod.Lex.toLex_le_toLex.mp below with less | ⟨_, rest⟩
  · exact absurd less (by simp [none])
  · rcases Prod.Lex.toLex_le_toLex.mp rest with fewer | ⟨same, _⟩
    · exact absurd fewer (by simp [empty])
    · exact List.length_eq_zero_iff.mp (by simpa [empty] using same)

end ItemSet

/-- The class State of karmarkar_karp: k sets in decreasing order. -/
structure State (k : Nat) where
  sets : List ItemSet
  length_eq : sets.length = k
  falling : sets.Pairwise fun s later => later.key ≤ s.key

-- sorted(sets, reverse=True)
def descending (sets : List ItemSet) : List ItemSet := sets.mergeSort fun s later => !(s.lt later)

theorem descending_perm (sets : List ItemSet) : (descending sets).Perm sets := List.mergeSort_perm _ _

theorem descending_falling (sets : List ItemSet) :
    (descending sets).Pairwise fun s later => later.key ≤ s.key := by
  have sorted := @List.pairwise_mergeSort _ (fun s later : ItemSet => !(s.lt later))
    (fun a b c => by simpa [ItemSet.lt] using fun first second => le_trans second first)
    (fun a b => by simpa [ItemSet.lt] using le_total _ _) sets
  exact sorted.imp fun order => by simpa [ItemSet.lt] using order

namespace State

variable {k : Nat}

def ofSets (sets : List ItemSet) (length : sets.length = k) : State k where
  sets := descending sets
  length_eq := (descending_perm sets).length_eq.trans length
  falling := descending_falling sets

def ofItems (k : Nat) (items : List (Nat × Nat)) : State k :=
  ofSets ((List.range k).map fun i =>
    match items[i]? with
    | some (idx, seqlen) => ItemSet.empty.add idx seqlen
    | none => .empty) (by simp)

def getPartitions (s : State k) : List (List Nat) := s.sets.map fun set => set.items.map Prod.fst

def merge (s other : State k) : State k :=
  ofSets (List.zipWith ItemSet.merge s.sets other.sets.reverse) (by simp [s.length_eq, other.length_eq])

def spread (s : State k) : Nat :=
  ((s.sets.head?.map ItemSet.sum).getD 0) - ((s.sets.getLast?.map ItemSet.sum).getD 0)

def lt (s other : State k) : Bool :=
  if s.spread ≠ other.spread then decide (other.spread < s.spread)
  else (other.sets.head?.getD .empty).lt (s.sets.head?.getD .empty)

end State

-- sorted([(seqlen, i) for i, seqlen in enumerate(seqlen_list)])
def sortedSeqlens (seqlens : List Nat) : List (Nat × Nat) :=
  seqlens.zipIdx.mergeSort fun first second => decide (toLex first ≤ toLex second)

-- (idx, seqlen) for (seqlen, idx)
def sortedItems (seqlens : List Nat) : List (Nat × Nat) := (sortedSeqlens seqlens).map Prod.swap

def initialStates (seqlens : List Nat) (k : Nat) (equalSize : Bool) : Except Error (List (State k)) :=
  if equalSize then
    if k = 0 then .error .zeroDivisionError
    else if seqlens.length % k ≠ 0 then
      .error (.assertionError (decimal seqlens.length ++ lit " % " ++ decimal k ++ lit " != 0"))
    else .ok ((List.range (seqlens.length / k)).map fun round =>
      State.ofItems k (((sortedItems seqlens).drop (round * k)).take k))
  else if k = 0 ∧ seqlens ≠ [] then .error .indexError
  else .ok ((sortedItems seqlens).map fun item => State.ofItems k [item])

def karmarkarKarp (seqlens : List Nat) (k : Nat) (equalSize : Bool) : Except Error (List (List Nat)) := do
  let states ← initialStates seqlens k equalSize
  match reduce State.lt State.merge states with
  | none => .error .indexError
  | some finalState =>
    let partitions := finalState.getPartitions
    partitions.forM fun partition =>
      require (equalSize = true → partition.length * k = seqlens.length)
        (decimal partition.length ++ lit " * " ++ decimal k ++ lit " != " ++ decimal seqlens.length)
    return partitions

-- sorted(partition)
def ascending (partition : List Nat) : List Nat := partition.mergeSort fun first second => decide (first ≤ second)

-- The inner function of get_seqlen_balanced_partitions.
def checkAndSortPartitions (seqlens : List Nat) (k : Nat) (partitions : List (List Nat)) :
    Except Error (List (List Nat)) := do
  require (partitions.length = k) (decimal partitions.length ++ lit " != " ++ decimal k)
  let sorted ← partitions.zipIdx.mapM fun (partition, i) => do
    require (partition ≠ []) (lit "the " ++ decimal i ++ lit "-th partition is empty")
    return ascending partition
  require ((∀ idx ∈ partitions.flatten, idx < seqlens.length) ∧
    ∀ idx ∈ List.range seqlens.length, idx ∈ partitions.flatten) []
  return sorted

def getSeqlenBalancedPartitions (seqlens : List Nat) (k : Nat) (equalSize : Bool) :
    Except Error (List (List Nat)) := do
  require (k ≤ seqlens.length)
    (lit "number of items:[" ++ decimal seqlens.length ++ lit "] < k_partitions:[" ++ decimal k ++ lit "]")
  let partitions ← karmarkarKarp seqlens k equalSize
  checkAndSortPartitions seqlens k partitions

theorem forM_ok {α : Type} {f : α → Except Error Unit} {xs : List α} (each : ∀ x ∈ xs, f x = .ok ()) :
    xs.forM f = .ok () := by
  induction xs with
  | nil => rfl
  | cons x xs ih =>
    change (f x >>= fun _ => xs.forM f) = _
    rw [each x (by simp)]
    exact ih fun y member => each y (List.mem_cons_of_mem _ member)

namespace State

variable {k : Nat}

def rows (s : State k) : List (List (Nat × Nat)) := s.sets.map ItemSet.items

def sums (s : State k) : List Nat := s.sets.map ItemSet.sum

theorem sums_falling (s : State k) : s.sums.Pairwise (· ≥ ·) :=
  List.pairwise_map.mpr (s.falling.imp ItemSet.sum_le_of_key_le)

theorem rows_emptiesLast (s : State k) : EmptiesLast s.rows :=
  List.pairwise_map.mpr (s.falling.imp ItemSet.empty_of_key_le)

theorem ofSets_rows {sets : List ItemSet} (length : sets.length = k) :
    (ofSets sets length).rows.Perm (sets.map ItemSet.items) := (descending_perm sets).map _

theorem ofSets_sums {sets : List ItemSet} (length : sets.length = k) :
    (ofSets sets length).sums.Perm (sets.map ItemSet.sum) := (descending_perm sets).map _

theorem merge_rows (s other : State k) : (s.merge other).rows.Perm (crossed s.rows other.rows) := by
  have mapped : (List.zipWith ItemSet.merge s.sets other.sets.reverse).map ItemSet.items =
      crossed s.rows other.rows := by
    rw [crossed, rows, rows, ← List.map_reverse, List.map_zipWith, List.zipWith_map]
    simp
  exact mapped ▸ ofSets_rows _

theorem merge_sums (s other : State k) :
    (s.merge other).sums.Perm (List.zipWith (· + ·) s.sums other.sums.reverse) := by
  have mapped : (List.zipWith ItemSet.merge s.sets other.sets.reverse).map ItemSet.sum =
      List.zipWith (· + ·) s.sums other.sums.reverse := by
    rw [sums, sums, ← List.map_reverse, List.map_zipWith, List.zipWith_map]
    simp
  exact mapped ▸ ofSets_sums _

theorem rows_length (s other : State k) : s.rows.length = other.rows.length := by
  simp [rows, s.length_eq, other.length_eq]

def Balanced (d : Nat) (s : State k) : Prop := Within d s.sums

def Settled (s : State k) : Prop := Full s.rows ∨ Thin s.rows

def Even (s : State k) : Prop := ∃ size, ∀ row ∈ s.rows, row.length = size

theorem merge_balanced {d : Nat} (s other : State k) (left : s.Balanced d) (right : other.Balanced d) :
    (s.merge other).Balanced d := by
  have combined := Within.combine (by simp [sums, s.length_eq, other.length_eq]) s.sums_falling
    other.sums_falling left right
  intro x xMem y yMem
  exact combined x ((merge_sums s other).mem_iff.mp xMem) y ((merge_sums s other).mem_iff.mp yMem)

theorem merge_settled (s other : State k) (left : s.Settled) (right : other.Settled) :
    (s.merge other).Settled := by
  have same := merge_rows s other
  rcases Differencing.crossed_full_or_thin (s.rows_length other) s.rows_emptiesLast other.rows_emptiesLast
    left right with full | thin
  · exact .inl fun row member => full row (same.mem_iff.mp member)
  · exact .inr fun row member => thin row (same.mem_iff.mp member)

theorem merge_even (s other : State k) (left : s.Even) (right : other.Even) : (s.merge other).Even := by
  obtain ⟨m, mEach⟩ := left
  obtain ⟨n, nEach⟩ := right
  refine ⟨m + n, fun row member => ?_⟩
  obtain ⟨i, inside, rfl⟩ := List.getElem_of_mem ((merge_rows s other).mem_iff.mp member)
  simp only [crossed, List.length_zipWith, List.length_reverse] at inside
  simp only [crossed, List.getElem_zipWith, List.length_append]
  rw [mEach _ (List.getElem_mem _), nEach _ (List.mem_reverse.mp (List.getElem_mem _))]

theorem merge_items (s other : State k) :
    (s.merge other).rows.flatten.Perm (s.rows.flatten ++ other.rows.flatten) :=
  (merge_rows s other).flatten.trans (Differencing.crossed_flatten (s.rows_length other))

theorem ofItems_rows {items : List (Nat × Nat)} (few : items.length ≤ k) :
    (ofItems k items).rows.Perm (items.map (fun item => [item]) ++ List.replicate (k - items.length) []) := by
  refine (ofSets_rows _).trans (.of_eq ?_)
  apply List.ext_getElem
  · simp
    omega
  · intro i inside _
    simp only [List.map_map, List.getElem_map, List.getElem_range, Function.comp_apply]
    by_cases within : i < items.length
    · rw [List.getElem?_eq_getElem within, List.getElem_append_left (by simpa using within)]
      simp [ItemSet.add, ItemSet.empty]
    · rw [List.getElem?_eq_none (by omega), List.getElem_append_right (by simpa using within)]
      simp [ItemSet.empty]

theorem ofItems_items {items : List (Nat × Nat)} (few : items.length ≤ k) :
    (ofItems k items).rows.flatten.Perm items := by
  refine (ofItems_rows few).flatten.trans (.of_eq ?_)
  rw [List.flatten_append, ← List.flatMap_def, List.flatMap_singleton']
  simp

theorem sums_eq (s : State k) : s.sums = s.rows.map fun row => (row.map Prod.snd).sum := by
  simp only [sums, rows, List.map_map]
  exact List.map_congr_left fun set _ => set.sum_eq

theorem ofItems_sums {items : List (Nat × Nat)} (few : items.length ≤ k) :
    (ofItems k items).sums.Perm (items.map Prod.snd ++ List.replicate (k - items.length) 0) := by
  rw [sums_eq]
  refine ((ofItems_rows few).map _).trans (.of_eq ?_)
  simp

theorem ofItems_settled {items : List (Nat × Nat)} (few : items.length ≤ k) : (ofItems k items).Settled := by
  refine .inr fun row member => ?_
  rcases List.mem_append.mp ((ofItems_rows few).mem_iff.mp member) with member | member
  · obtain ⟨item, _, rfl⟩ := List.mem_map.mp member
    simp
  · obtain ⟨_, rfl⟩ := List.mem_replicate.mp member
    simp

theorem ofItems_even {items : List (Nat × Nat)} (length : items.length = k) : (ofItems k items).Even := by
  refine ⟨1, fun row member => ?_⟩
  have rows := (ofItems_rows length.le).mem_iff.mp member
  rw [length, Nat.sub_self, List.replicate_zero, List.append_nil] at rows
  obtain ⟨item, _, rfl⟩ := List.mem_map.mp rows
  rfl

theorem ofItems_balanced {d : Nat} {items : List (Nat × Nat)} (few : items.length ≤ k)
    (near : Within d (items.map Prod.snd)) (small : items.length < k → ∀ item ∈ items, item.2 ≤ d) :
    (ofItems k items).Balanced d := by
  have mem {x : Nat} (member : x ∈ (ofItems k items).sums) :
      x ∈ items.map Prod.snd ∨ items.length < k ∧ x = 0 := by
    rcases List.mem_append.mp ((ofItems_sums few).mem_iff.mp member) with member | member
    · exact .inl member
    · obtain ⟨room, rfl⟩ := List.mem_replicate.mp member
      exact .inr ⟨by omega, rfl⟩
  intro x xMem y yMem
  rcases mem xMem with xItem | ⟨_, rfl⟩
  · rcases mem yMem with yItem | ⟨room, rfl⟩
    · exact near x xItem y yItem
    · obtain ⟨item, member, rfl⟩ := List.mem_map.mp xItem
      simpa using small room item member
  · exact Nat.zero_le _

end State

section Start

variable {seqlens : List Nat} {k : Nat}

theorem sortedItems_perm : (sortedItems seqlens).Perm (seqlens.zipIdx.map Prod.swap) :=
  (List.mergeSort_perm _ _).map _

theorem sortedItems_length : (sortedItems seqlens).length = seqlens.length := by
  rw [sortedItems_perm.length_eq, List.length_map, List.length_zipIdx]

theorem sortedItems_snd {item : Nat × Nat} (member : item ∈ sortedItems seqlens) : item.2 ∈ seqlens := by
  obtain ⟨⟨seqlen, idx⟩, pair, rfl⟩ := List.mem_map.mp (sortedItems_perm.mem_iff.mp member)
  exact List.fst_mem_of_mem_zipIdx pair

theorem rounds_flatten {α : Type} (xs : List α) (k count : Nat) :
    ((List.range count).flatMap fun round => (xs.drop (round * k)).take k) = xs.take (count * k) := by
  induction count with
  | zero => simp
  | succ count ih =>
    rw [List.range_succ, List.flatMap_append, ih, List.flatMap_singleton, Nat.succ_mul, List.take_add]

-- A length, or with equal sizes a difference of two lengths.
def Bound (seqlens : List Nat) (equalSize : Bool) (d : Nat) : Prop :=
  if equalSize then Within d seqlens else ∀ seqlen ∈ seqlens, seqlen ≤ d

theorem Bound.within {equalSize : Bool} {d : Nat} (bound : Bound seqlens equalSize d) : Within d seqlens := by
  cases equalSize with
  | true => exact bound
  | false => exact fun x member y _ => (bound x member).trans (Nat.le_add_left d y)

structure Sound (seqlens : List Nat) (equalSize : Bool) (s : State k) : Prop where
  settled : s.Settled
  even : equalSize = true → s.Even
  balanced (d : Nat) (bound : Bound seqlens equalSize d) : s.Balanced d

theorem Sound.merge {equalSize : Bool} (s other : State k) (left : Sound seqlens equalSize s)
    (right : Sound seqlens equalSize other) : Sound seqlens equalSize (s.merge other) where
  settled := s.merge_settled other left.settled right.settled
  even equal := s.merge_even other (left.even equal) (right.even equal)
  balanced d bound := s.merge_balanced other (left.balanced d bound) (right.balanced d bound)

theorem sound_ofItems {equalSize : Bool} {items : List (Nat × Nat)} (few : items.length ≤ k)
    (known : ∀ item ∈ items, item.2 ∈ seqlens) (whole : equalSize = true → items.length = k) :
    Sound seqlens equalSize (State.ofItems k items) where
  settled := State.ofItems_settled few
  even equal := State.ofItems_even (whole equal)
  balanced d bound := by
    refine State.ofItems_balanced few ?_ ?_
    · intro x xMem y yMem
      obtain ⟨item, itemMem, rfl⟩ := List.mem_map.mp xMem
      obtain ⟨other, otherMem, rfl⟩ := List.mem_map.mp yMem
      exact bound.within _ (known item itemMem) _ (known other otherMem)
    · intro room item member
      cases equalSize with
      | true => exact absurd (whole rfl) room.ne
      | false => exact bound _ (known item member)

theorem initialStates_ok {equalSize : Bool} (positive : 1 ≤ k) (divides : equalSize = true → k ∣ seqlens.length) :
    ∃ states : List (State k), initialStates seqlens k equalSize = .ok states ∧
      (∀ s ∈ states, Sound seqlens equalSize s) ∧
      (states.flatMap fun s => s.rows.flatten).Perm (seqlens.zipIdx.map Prod.swap) := by
  cases equalSize with
  | true =>
    obtain ⟨rounds, length⟩ := divides rfl
    have count : seqlens.length / k = rounds := by rw [length, Nat.mul_div_cancel_left _ (by omega)]
    have size {round : Nat} (within : round < rounds) :
        (((sortedItems seqlens).drop (round * k)).take k).length = k := by
      have room : (round + 1) * k ≤ rounds * k := Nat.mul_le_mul_right k within
      rw [List.length_take, List.length_drop, sortedItems_length, length, Nat.mul_comm k rounds]
      rw [Nat.succ_mul] at room
      omega
    refine ⟨_, by rw [initialStates, if_pos rfl, if_neg (by omega), if_neg (by simp [length])], ?_, ?_⟩
    · intro s member
      obtain ⟨round, inside, rfl⟩ := List.mem_map.mp member
      have within : round < rounds := by simpa [count] using inside
      exact sound_ofItems (size within).le
        (fun item among => sortedItems_snd (List.mem_of_mem_drop (List.mem_of_mem_take among)))
        fun _ => size within
    · rw [List.flatMap_map, count]
      have each : ((List.range rounds).flatMap fun round =>
          (State.ofItems k (((sortedItems seqlens).drop (round * k)).take k)).rows.flatten).Perm
            ((List.range rounds).flatMap fun round => ((sortedItems seqlens).drop (round * k)).take k) :=
        List.Perm.flatMap_left _ fun round inside =>
          State.ofItems_items (size (List.mem_range.mp inside)).le
      refine each.trans ?_
      rw [rounds_flatten, List.take_of_length_le]
      · exact sortedItems_perm
      · rw [sortedItems_length, length, Nat.mul_comm]
  | false =>
    refine ⟨_, by rw [initialStates, if_neg (by simp), if_neg (by omega)], ?_, ?_⟩
    · intro s member
      obtain ⟨item, among, rfl⟩ := List.mem_map.mp member
      refine sound_ofItems (by simpa using positive) ?_ (by simp)
      rintro other (_ | ⟨_, absent⟩)
      · exact sortedItems_snd among
      · exact absurd absent List.not_mem_nil
    · rw [List.flatMap_map]
      have each : ((sortedItems seqlens).flatMap fun item => (State.ofItems k [item]).rows.flatten).Perm
          ((sortedItems seqlens).flatMap fun item => [item]) :=
        List.Perm.flatMap_left _ fun item _ => State.ofItems_items (by simpa using positive)
      refine each.trans ?_
      rw [List.flatMap_singleton']
      exact sortedItems_perm

theorem karmarkarKarp_ok {equalSize : Bool} (positive : 1 ≤ k) (filled : seqlens ≠ [])
    (divides : equalSize = true → k ∣ seqlens.length) :
    ∃ final : State k, karmarkarKarp seqlens k equalSize = .ok final.getPartitions ∧
      Sound seqlens equalSize final ∧ final.rows.flatten.Perm (seqlens.zipIdx.map Prod.swap) ∧
      (equalSize = true → ∀ row ∈ final.rows, row.length * k = seqlens.length) := by
  obtain ⟨states, started, sound, items⟩ := @initialStates_ok _ _ equalSize positive divides
  have some : states ≠ [] := by
    rintro rfl
    have length := items.length_eq
    simp only [List.flatMap_nil, List.length_nil, List.length_map, List.length_zipIdx] at length
    exact filled (List.length_eq_zero_iff.mp length.symm)
  obtain ⟨final, reduced⟩ := @Differencing.reduce_filled _ State.lt State.merge _ some
  have finalSound := Differencing.reduce_invariant Sound.merge sound reduced
  have finalItems := (Differencing.reduce_perm State.merge_items reduced).trans items
  have sizes : equalSize = true → ∀ row ∈ final.rows, row.length * k = seqlens.length := by
    intro equal row member
    obtain ⟨size, each⟩ := finalSound.even equal
    have total := finalItems.length_eq
    rw [List.length_flatten, List.map_congr_left each, List.map_const', List.sum_replicate_nat, State.rows,
      List.length_map, final.length_eq, List.length_map, List.length_zipIdx] at total
    rw [each row member, Nat.mul_comm, total]
  refine ⟨final, ?_, finalSound, finalItems, sizes⟩
  rw [karmarkarKarp, started, ok_bind, reduced]
  have asserted : final.getPartitions.forM (fun partition =>
      require (equalSize = true → partition.length * k = seqlens.length)
        (decimal partition.length ++ lit " * " ++ decimal k ++ lit " != " ++ decimal seqlens.length)) =
        .ok () := by
    refine forM_ok fun partition member => require_ok.mpr fun equal => ?_
    obtain ⟨set, inside, rfl⟩ := List.mem_map.mp member
    rw [List.length_map]
    exact sizes equal set.items (List.mem_map_of_mem inside)
  simp only [asserted, ok_bind]
  rfl

end Start

structure IsPartition (n k : Nat) (partitions : List (List Nat)) : Prop where
  count : partitions.length = k
  covers : partitions.flatten.Perm (List.range n)
  filled : ∀ partition ∈ partitions, partition ≠ []
  increasing : ∀ partition ∈ partitions, partition.Pairwise (· < ·)

def load (seqlens : List Nat) (partition : List Nat) : Nat := (partition.map fun i => seqlens.getD i 0).sum

theorem load_perm {seqlens partition other : List Nat} (same : partition.Perm other) :
    load seqlens partition = load seqlens other := (same.map _).sum_eq

section Balanced

variable {seqlens : List Nat} {k : Nat}

theorem ascending_perm (partition : List Nat) : (ascending partition).Perm partition := List.mergeSort_perm _ _

theorem ascending_increasing {partition : List Nat} (distinct : partition.Nodup) :
    (ascending partition).Pairwise (· < ·) := by
  have sorted := @List.pairwise_mergeSort _ (fun first second : Nat => decide (first ≤ second))
    (fun a b c => by simpa using fun left right => le_trans left right)
    (fun a b => by simpa using le_total a b) partition
  have apart : (ascending partition).Pairwise (· ≠ ·) := (ascending_perm partition).nodup_iff.mpr distinct
  exact (sorted.and apart).imp fun ⟨order, different⟩ => lt_of_le_of_ne (by simpa using order) different

theorem checkAndSortPartitions_ok {partitions : List (List Nat)} (count : partitions.length = k)
    (filled : ∀ partition ∈ partitions, partition ≠ [])
    (covers : partitions.flatten.Perm (List.range seqlens.length)) :
    checkAndSortPartitions seqlens k partitions = .ok (partitions.map ascending) := by
  have seen : (∀ idx ∈ partitions.flatten, idx < seqlens.length) ∧
      ∀ idx ∈ List.range seqlens.length, idx ∈ partitions.flatten :=
    ⟨fun idx member => List.mem_range.mp (covers.mem_iff.mp member), fun idx member => covers.mem_iff.mpr member⟩
  have sorted : (partitions.zipIdx.map fun pair => ascending pair.1) = partitions.map ascending := by
    have split : (partitions.zipIdx.map fun pair => ascending pair.1) =
        (partitions.zipIdx.map Prod.fst).map ascending := by rw [List.map_map]; rfl
    rw [split, List.zipIdx_map_fst]
  rw [checkAndSortPartitions, require_ok.mpr count, ok_bind, mapM_ok (g := fun pair : List Nat × Nat =>
    ascending pair.1), ok_bind, require_ok.mpr seen, ok_bind, sorted]
  · rfl
  · rintro ⟨partition, i⟩ member
    simp only [require_ok.mpr (filled _ (List.fst_mem_of_mem_zipIdx member)), ok_bind]
    rfl

theorem zipIdx_load {item : Nat × Nat} (member : item ∈ seqlens.zipIdx.map Prod.swap) :
    seqlens.getD item.1 0 = item.2 := by
  obtain ⟨⟨seqlen, idx⟩, pair, rfl⟩ := List.mem_map.mp member
  have found := List.mem_zipIdx_iff_getElem?.mp pair
  simp [List.getD_eq_getElem?_getD, found]

theorem getSeqlenBalancedPartitions_ok {equalSize : Bool} (positive : 1 ≤ k) (enough : k ≤ seqlens.length)
    (divides : equalSize = true → k ∣ seqlens.length) :
    ∃ partitions, getSeqlenBalancedPartitions seqlens k equalSize = .ok partitions ∧
      IsPartition seqlens.length k partitions ∧
      (equalSize = true → ∀ partition ∈ partitions, partition.length * k = seqlens.length) ∧
      ∀ d, Bound seqlens equalSize d → Within d (partitions.map (load seqlens)) := by
  have filled : seqlens ≠ [] := by
    rintro rfl
    simp at enough
    omega
  obtain ⟨final, ran, sound, items, sizes⟩ := karmarkarKarp_ok positive filled divides
  have full : Full final.rows := by
    rcases sound.settled with full | thin
    · exact full
    · refine thin.full ?_
      rw [items.length_eq]
      simpa [State.rows, final.length_eq] using enough
  have rowsOf {partition : List Nat} (member : partition ∈ final.getPartitions) :
      ∃ row ∈ final.rows, partition = row.map Prod.fst := by
    obtain ⟨set, inside, rfl⟩ := List.mem_map.mp member
    exact ⟨set.items, List.mem_map_of_mem inside, rfl⟩
  have covers : final.getPartitions.flatten.Perm (List.range seqlens.length) := by
    have mapped : final.getPartitions.flatten = final.rows.flatten.map Prod.fst := by
      rw [List.map_flatten, State.getPartitions, State.rows, List.map_map]
      rfl
    rw [mapped]
    refine (items.map Prod.fst).trans (.of_eq ?_)
    rw [List.map_map]
    exact (List.zipIdx_map_snd 0 seqlens).trans List.range_eq_range'.symm
  have count : final.getPartitions.length = k := by simp [State.getPartitions, final.length_eq]
  have nonempty : ∀ partition ∈ final.getPartitions, partition ≠ [] := by
    intro partition member
    obtain ⟨row, inside, rfl⟩ := rowsOf member
    simpa using full row inside
  have distinct : ∀ partition ∈ final.getPartitions, partition.Nodup :=
    (List.nodup_flatten.mp (covers.nodup_iff.mpr List.nodup_range)).1
  refine ⟨final.getPartitions.map ascending, ?_, ⟨?_, ?_, ?_, ?_⟩, ?_, ?_⟩
  · rw [getSeqlenBalancedPartitions, require_ok.mpr enough, ok_bind, ran, ok_bind,
      checkAndSortPartitions_ok count nonempty covers]
  · rw [List.length_map, count]
  · refine .trans ?_ covers
    rw [← List.flatMap_def]
    refine (List.Perm.flatMap_left _ fun partition _ => ascending_perm partition).trans (.of_eq ?_)
    rw [List.flatMap_id']
  · intro partition member
    obtain ⟨unsorted, inside, rfl⟩ := List.mem_map.mp member
    intro none
    exact nonempty _ inside (List.length_eq_zero_iff.mp
      ((ascending_perm unsorted).length_eq ▸ List.length_eq_zero_iff.mpr none))
  · intro partition member
    obtain ⟨unsorted, inside, rfl⟩ := List.mem_map.mp member
    exact ascending_increasing (distinct _ inside)
  · intro equal partition member
    obtain ⟨unsorted, inside, rfl⟩ := List.mem_map.mp member
    obtain ⟨row, among, rfl⟩ := rowsOf inside
    rw [(ascending_perm _).length_eq, List.length_map]
    exact sizes equal row among
  · intro d bound
    have loads : (final.getPartitions.map ascending).map (load seqlens) = final.sums := by
      rw [List.map_map, State.sums_eq, State.getPartitions, State.rows, List.map_map, List.map_map]
      refine List.map_congr_left fun set inside => ?_
      simp only [Function.comp_apply]
      rw [load_perm (ascending_perm _), load, List.map_map]
      refine congrArg List.sum (List.map_congr_left fun item among => ?_)
      refine zipIdx_load (items.mem_iff.mp (List.mem_flatten.mpr ⟨set.items, ?_, among⟩))
      exact List.mem_map_of_mem inside
    rw [loads]
    exact sound.balanced d bound

theorem getSeqlenBalancedPartitions_error {equalSize : Bool}
    (outside : ¬ (1 ≤ k ∧ k ≤ seqlens.length ∧ (equalSize = true → k ∣ seqlens.length))) :
    ∃ error, getSeqlenBalancedPartitions seqlens k equalSize = .error error := by
  by_cases enough : k ≤ seqlens.length
  · have failed : ∃ error, karmarkarKarp seqlens k equalSize = .error error := by
      cases equalSize with
      | true =>
        by_cases zero : k = 0
        · exact ⟨_, by rw [karmarkarKarp, initialStates, if_pos rfl, if_pos zero]; rfl⟩
        · have odd : seqlens.length % k ≠ 0 := fun even =>
            outside ⟨by omega, enough, fun _ => Nat.dvd_of_mod_eq_zero even⟩
          exact ⟨_, by rw [karmarkarKarp, initialStates, if_pos rfl, if_neg zero, if_pos odd]; rfl⟩
      | false =>
        have zero : k = 0 := by
          by_contra positive
          exact outside ⟨by omega, enough, by simp⟩
        by_cases none : seqlens = []
        · subst zero none
          exact ⟨.indexError, by simp [karmarkarKarp, initialStates, sortedItems, sortedSeqlens]⟩
        · exact ⟨_, by rw [karmarkarKarp, initialStates, if_neg (by simp), if_pos ⟨zero, none⟩]; rfl⟩
    obtain ⟨error, failed⟩ := failed
    exact ⟨error, by rw [getSeqlenBalancedPartitions, require_ok.mpr enough, ok_bind, failed]; rfl⟩
  · exact ⟨_, by rw [getSeqlenBalancedPartitions, require, if_neg enough]; rfl⟩

end Balanced

-- The balanced partition exists exactly for a fair request.
theorem balancedPartitions_correct (seqlens : List Nat) (k : Nat) (equalSize : Bool) :
    ((∃ partitions, getSeqlenBalancedPartitions seqlens k equalSize = .ok partitions) ↔
      1 ≤ k ∧ k ≤ seqlens.length ∧ (equalSize = true → k ∣ seqlens.length)) ∧
    ∀ partitions, getSeqlenBalancedPartitions seqlens k equalSize = .ok partitions →
      IsPartition seqlens.length k partitions ∧
      (equalSize = true → ∀ partition ∈ partitions, partition.length * k = seqlens.length) ∧
      ∀ d, Bound seqlens equalSize d → ∀ partition ∈ partitions, ∀ other ∈ partitions,
        load seqlens partition ≤ load seqlens other + d := by
  by_cases fair : 1 ≤ k ∧ k ≤ seqlens.length ∧ (equalSize = true → k ∣ seqlens.length)
  · obtain ⟨made, returned, is, sizes, near⟩ := getSeqlenBalancedPartitions_ok fair.1 fair.2.1 fair.2.2
    refine ⟨⟨fun _ => fair, fun _ => ⟨made, returned⟩⟩, fun partitions same => ?_⟩
    obtain rfl := Except.ok.inj (returned.symm.trans same)
    refine ⟨is, sizes, fun d bound partition member other otherMem => ?_⟩
    exact near d bound _ (List.mem_map_of_mem member) _ (List.mem_map_of_mem otherMem)
  · obtain ⟨error, raised⟩ := getSeqlenBalancedPartitions_error fair
    refine ⟨⟨?_, fun holds => absurd holds fair⟩, ?_⟩
    · rintro ⟨partitions, returned⟩
      cases raised.symm.trans returned
    · intro partitions returned
      cases raised.symm.trans returned

end CotCompression.Verl
