import Mathlib.Data.List.Nodup
import Mathlib.Tactic.Common
import Mathlib.Tactic.Ring

set_option autoImplicit false

inductive MergeTree where
  | leaf
  | node (left right : MergeTree)
  deriving DecidableEq

namespace MergeTree

/-- The leaves from `start` to `middle` meet those from `middle` to `stop`. -/
structure Merge where
  start : Nat
  middle : Nat
  stop : Nat
  deriving DecidableEq

def Merge.Balanced (merge : Merge) : Prop := merge.middle - merge.start = merge.stop - merge.middle

def leaves : MergeTree → Nat
  | leaf => 1
  | node left right => left.leaves + right.leaves

def merges : MergeTree → Nat → List Merge
  | leaf, _ => []
  | node left right, start =>
      left.merges start ++ right.merges (start + left.leaves) ++
        [⟨start, start + left.leaves, start + left.leaves + right.leaves⟩]

def perfect : Nat → MergeTree
  | 0 => leaf
  | depth + 1 => node (perfect depth) (perfect depth)

theorem leaves_pos (tree : MergeTree) : 0 < tree.leaves := by
  induction tree with
  | leaf => exact Nat.one_pos
  | node left right ihLeft _ => exact Nat.add_pos_left ihLeft _

theorem merges_length (tree : MergeTree) (start : Nat) : (tree.merges start).length + 1 = tree.leaves := by
  induction tree generalizing start with
  | leaf => rfl
  | node left right ihLeft ihRight =>
    have here := ihLeft start
    have there := ihRight (start + left.leaves)
    simp only [merges, leaves, List.length_append, List.length_singleton]
    omega

theorem merges_within {tree : MergeTree} {start : Nat} {merge : Merge} (member : merge ∈ tree.merges start) :
    start ≤ merge.start ∧ merge.start < merge.middle ∧ merge.middle < merge.stop ∧
      merge.stop ≤ start + tree.leaves := by
  induction tree generalizing start with
  | leaf => simp [merges] at member
  | node left right ihLeft ihRight =>
    have leftPos := left.leaves_pos
    have rightPos := right.leaves_pos
    simp only [merges, List.mem_append, List.mem_singleton] at member
    rw [leaves]
    rcases member with (member | member) | rfl
    · have := ihLeft member
      omega
    · have := ihRight member
      omega
    · simp only
      omega

theorem merges_nodup (tree : MergeTree) (start : Nat) : (tree.merges start).Nodup := by
  induction tree generalizing start with
  | leaf => exact List.nodup_nil
  | node left right ihLeft ihRight =>
    have rightPos := right.leaves_pos
    rw [merges, List.nodup_append, List.nodup_append]
    refine ⟨⟨ihLeft _, ihRight _, fun a left b right same => ?_⟩, List.nodup_singleton _,
      fun a inside b root same => ?_⟩
    · -- the two subtrees have no leaf in common
      subst same
      have := merges_within left
      have := merges_within right
      omega
    · rw [List.mem_singleton.mp root] at same
      subst same
      rcases List.mem_append.mp inside with inside | inside
      · have within := merges_within inside
        simp only at within
        omega
      · have within := merges_within inside
        simp only at within
        have leftPos := left.leaves_pos
        omega

theorem leaves_perfect (depth : Nat) : (perfect depth).leaves = 2 ^ depth := by
  induction depth with
  | zero => rfl
  | succ depth ih => rw [perfect, leaves, ih, Nat.pow_succ, Nat.mul_two]

theorem merges_perfect_succ (depth start : Nat) :
    (perfect (depth + 1)).merges start = (perfect depth).merges start ++
      (perfect depth).merges (start + 2 ^ depth) ++ [⟨start, start + 2 ^ depth, start + 2 ^ (depth + 1)⟩] := by
  rw [perfect, merges, leaves_perfect, Nat.pow_succ, Nat.mul_two, Nat.add_assoc]

theorem perfect_balanced {depth start : Nat} {merge : Merge} (member : merge ∈ (perfect depth).merges start) :
    merge.Balanced := by
  induction depth generalizing start with
  | zero => simp [perfect, merges] at member
  | succ depth ih =>
    rw [merges_perfect_succ, List.mem_append, List.mem_append, List.mem_singleton] at member
    rcases member with (member | member) | rfl
    · exact ih member
    · exact ih member
    · have double : 2 ^ (depth + 1) = 2 ^ depth + 2 ^ depth := by ring
      simp only [Merge.Balanced]
      omega

end MergeTree
