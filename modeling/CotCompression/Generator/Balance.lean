import CotCompression.Generator.Backward
import CotCompression.Generator.Hierarchical
import CotCompression.Shared.MergeTree

set_option autoImplicit false

namespace CotCompression

open Program (Prog)
open Text (lit decimal)
open Affine (Covers Folded IsCanonical composed)
open MergeTree (Merge perfect)

def FoldsTo (mod : Int) (segments : List Segment) (f : Affine Int) : Prop :=
  ∃ pivotVar lines, balanceChainRight mod segments pivotVar = .ok (f, lines)

def ResolvesTo (mod : Int) (segments : List Segment) (baseVal value : Int) : Prop :=
  ∃ baseVar lines, balanceResolve mod segments baseVal baseVar = .ok (value, lines)

-- The segments of the pairs of operations from `start` to `stop`; pair 0 has none, its value is known.
def block (segments : List Segment) (start stop : Nat) : List Segment :=
  (segments.drop (start - 1)).take (stop - start)

def boundary (segments : List Segment) (pair : Nat) : Text :=
  if pair ≤ 1 then (segments.head?.map Segment.baseVar).getD []
  else (segments[pair - 2]?.map Segment.endpointVar).getD []

/-- The line of a merge: one that reaches back to the first pair puts a number into the form of the
right block, any other composes the forms of both. -/
inductive MergeLine (mod : Int) (segments : List Segment) (baseVal : Int) : Merge → Line → Prop
  | concrete {middle stop : Nat} {right : Affine Int} {literal result : Int}
      (before : ResolvesTo mod (block segments 1 middle) baseVal literal)
      (after : FoldsTo mod (block segments middle stop) right)
      (joined : pyMod (right.apply literal) mod = .ok result) :
      MergeLine mod segments baseVal ⟨0, middle, stop⟩
        (.equation [boundary segments stop, formatLinear right (boundary segments middle),
          formatLinearWithLiteral right literal, decimal result])
  | symbolic {start middle stop : Nat} {left right : Affine Int} (later : 1 ≤ start)
      (before : FoldsTo mod (block segments start middle) left)
      (after : FoldsTo mod (block segments middle stop) right) :
      MergeLine mod segments baseVal ⟨start, middle, stop⟩
        (.equation [boundary segments stop, formatLinear right (boundary segments middle),
          formatLinear (Affine.canonical mod (right * left)) (boundary segments start)])

/-- One line for each inner node of the perfect tree, children before parents. -/
structure PerfectlyMerged (mod : Int) (segments : List Segment) (baseVal : Int) (depth : Nat)
    (lines : List Line) : Prop where
  postorder : List.Forall₂ (MergeLine mod segments baseVal) ((perfect depth).merges 0) lines
  count : lines.length = 2 ^ depth - 1
  distinct : ((perfect depth).merges 0).Nodup
  balanced : ∀ merge ∈ (perfect depth).merges 0, merge.Balanced

section Blocks

variable {start middle stop : Nat}

theorem block_append {segments : List Segment} (first : 1 ≤ start) (left : start ≤ middle) (right : middle ≤ stop) :
    block segments start middle ++ block segments middle stop = block segments start stop := by
  have later : segments.drop (middle - 1) = (segments.drop (start - 1)).drop (middle - start) := by
    rw [List.drop_drop]
    congr 1
    omega
  rw [block, block, block, later, ← List.take_add]
  congr 1
  omega

theorem block_length {segments : List Segment} (first : 1 ≤ start) (ordered : start ≤ stop)
    (within : stop ≤ segments.length + 1) :
    (block segments start stop).length = stop - start := by
  rw [block, List.length_take, List.length_drop]
  omega

theorem block_single {segments : List Segment} (first : 1 ≤ start) (within : start ≤ segments.length) :
    ∃ s, segments[start - 1]? = some s ∧ block segments start (start + 1) = [s] := by
  have inside : start - 1 < segments.length := by omega
  refine ⟨segments[start - 1], List.getElem?_eq_getElem inside, ?_⟩
  rw [block, List.drop_eq_getElem_cons inside, Nat.add_sub_cancel_left]
  rfl

theorem lastItem_block {segments : List Segment} (first : 1 ≤ start) (within : stop ≤ segments.length + 1)
    (ordered : start < stop) :
    ∃ s, lastItem (block segments start stop) = .ok s ∧ s.endpointVar = boundary segments stop := by
  obtain ⟨before, rfl⟩ := Nat.exists_eq_succ_of_ne_zero (by omega : stop ≠ 0)
  obtain ⟨s, found, single⟩ := block_single (by omega : 1 ≤ before) (by omega : before ≤ segments.length)
  refine ⟨s, ?_, ?_⟩
  · rw [← block_append first (by omega : start ≤ before) (Nat.le_succ before), single]
    exact lastItem_append _ rfl
  · rw [boundary, if_neg (by omega), Nat.succ_sub_succ, found]
    rfl

end Blocks

section Perfect

variable {mod baseVal : Int} {segments : List Segment}

theorem balanceChainRight_perfect (nonzero : mod ≠ 0) (depth : Nat) {start : Nat} (first : 1 ≤ start)
    (within : start + 2 ^ depth ≤ segments.length + 1) :
    ∃ f lines, balanceChainRight mod (block segments start (start + 2 ^ depth)) (boundary segments start) =
        .ok (f, lines) ∧
      List.Forall₂ (MergeLine mod segments baseVal) ((perfect depth).merges start) lines := by
  induction depth generalizing start with
  | zero =>
    obtain ⟨s, _, single⟩ := block_single first (by omega : start ≤ segments.length)
    exact ⟨s.form, [], by rw [Nat.pow_zero, single, balanceChainRight], .nil⟩
  | succ depth ih =>
    have double : 2 ^ (depth + 1) = 2 ^ depth + 2 ^ depth := by ring
    have filled : 0 < 2 ^ depth := Nat.pow_pos (by omega)
    obtain ⟨f, leftLines, leftRun, leftTree⟩ := ih first (by omega)
    obtain ⟨g, rightLines, rightRun, rightTree⟩ := @ih (start + 2 ^ depth) (by omega) (by omega)
    rw [Nat.add_assoc, ← double] at rightRun
    obtain ⟨mid, midIs, midVar⟩ :=
      lastItem_block first (by omega : start + 2 ^ depth ≤ segments.length + 1) (by omega)
    obtain ⟨last, lastIs, lastVar⟩ := lastItem_block (by omega : 1 ≤ start + 2 ^ depth) within (by omega)
    have leftLength := block_length first (by omega : start ≤ start + 2 ^ depth)
      (by omega : start + 2 ^ depth ≤ segments.length + 1)
    have rightLength := block_length (by omega : 1 ≤ start + 2 ^ depth)
      (by omega : start + 2 ^ depth ≤ start + 2 ^ (depth + 1)) within
    have run := balanceChainRight_run nonzero (by rw [List.length_append]; omega)
      (List.length_pos_iff.mp (by omega)) leftRun midIs (by rwa [midVar]) lastIs
    rw [block_append first (by omega) (by omega), midVar, lastVar] at run
    refine ⟨_, _, run, ?_⟩
    rw [MergeTree.merges_perfect_succ]
    exact List.rel_append (List.rel_append leftTree rightTree)
      (.cons (.symbolic first ⟨_, _, leftRun⟩ ⟨_, _, rightRun⟩) .nil)

-- The pairs after the first one are a power of two less one; so are those of the left half.
theorem balanceResolve_perfect (nonzero : mod ≠ 0) (depth : Nat) (baseVar : Text)
    (within : 2 ^ depth ≤ segments.length + 1) :
    ∃ value lines, balanceResolve mod (block segments 1 (2 ^ depth)) baseVal baseVar = .ok (value, lines) ∧
      List.Forall₂ (MergeLine mod segments baseVal) ((perfect depth).merges 0) lines := by
  induction depth with
  | zero => exact ⟨baseVal, [], by simp [block, balanceResolve], .nil⟩
  | succ depth ih =>
    have double : 2 ^ (depth + 1) = 2 ^ depth + 2 ^ depth := by ring
    have filled : 0 < 2 ^ depth := Nat.pow_pos (by omega)
    obtain ⟨value, leftLines, leftRun, leftTree⟩ := ih (by omega)
    rw [MergeTree.merges_perfect_succ, Nat.zero_add, Nat.zero_add]
    rcases Nat.eq_zero_or_pos depth with rfl | deep
    · -- the only segment meets the number before it
      obtain ⟨s, found, single⟩ := block_single le_rfl (by omega : 1 ≤ segments.length)
      have base : s.baseVar = boundary segments 1 := by
        rw [boundary, if_pos le_rfl, List.head?_eq_getElem?, found]
        rfl
      have endpoint : s.endpointVar = boundary segments 2 := by
        rw [boundary, if_neg (by omega), found]
        rfl
      obtain ⟨result, made⟩ := pyMod_some nonzero (s.form.apply baseVal)
      have empty : block segments 1 1 = [] := List.take_zero
      have line : MergeLine mod segments baseVal ⟨0, 1, 2⟩ _ := .concrete
        ⟨baseVar, [], by rw [empty, balanceResolve]⟩ ⟨[], [], by rw [single, balanceChainRight]⟩ made
      rw [← base, ← endpoint] at line
      refine ⟨result, _, ?_, .cons line .nil⟩
      rw [Nat.zero_add, Nat.pow_one, single, balanceResolve, made]
      rfl
    · have two : 2 ≤ 2 ^ depth := Nat.le_self_pow (by omega) 2
      obtain ⟨g, rightLines, rightRun, rightTree⟩ := @balanceChainRight_perfect mod baseVal segments nonzero depth
        (2 ^ depth) (by omega) (by omega)
      rw [← double] at rightRun
      obtain ⟨mid, midIs, midVar⟩ := lastItem_block le_rfl (by omega : 2 ^ depth ≤ segments.length + 1) (by omega)
      obtain ⟨last, lastIs, lastVar⟩ := lastItem_block (by omega : 1 ≤ 2 ^ depth) within (by omega)
      obtain ⟨result, made⟩ := pyMod_some nonzero (g.apply value)
      have leftLength := block_length le_rfl (by omega : 1 ≤ 2 ^ depth) (by omega : 2 ^ depth ≤ segments.length + 1)
      have rightLength := block_length (by omega : 1 ≤ 2 ^ depth) (by omega : 2 ^ depth ≤ 2 ^ (depth + 1)) within
      have run := balanceResolve_run (by rw [List.length_append]; omega) (List.length_pos_iff.mp (by omega))
        leftRun midIs (by rwa [midVar]) lastIs made
      rw [block_append le_rfl (by omega) (by omega), midVar, lastVar] at run
      exact ⟨result, _, run, List.rel_append (List.rel_append leftTree rightTree)
        (.cons (.concrete ⟨_, _, leftRun⟩ ⟨_, _, rightRun⟩ made) .nil)⟩

theorem perfectlyMerged_of {depth : Nat} {lines : List Line}
    (postorder : List.Forall₂ (MergeLine mod segments baseVal) ((perfect depth).merges 0) lines) :
    PerfectlyMerged mod segments baseVal depth lines where
  postorder := postorder
  count := by
    have count := (perfect depth).merges_length 0
    rw [MergeTree.leaves_perfect] at count
    rw [← postorder.length_eq]
    omega
  distinct := (perfect depth).merges_nodup 0
  balanced _ := MergeTree.perfect_balanced

theorem balanceResolve_merged (nonzero : mod ≠ 0) {depth : Nat} (baseVar : Text)
    (length : segments.length = 2 ^ depth - 1) :
    ∃ value lines, balanceResolve mod segments baseVal baseVar = .ok (value, lines) ∧
      PerfectlyMerged mod segments baseVal depth lines := by
  have filled : 0 < 2 ^ depth := Nat.pow_pos (by omega)
  obtain ⟨value, lines, run, tree⟩ := @balanceResolve_perfect mod baseVal segments nonzero depth baseVar (by omega)
  have whole : block segments 1 (2 ^ depth) = segments := by
    rw [block, List.drop_zero, List.take_of_length_le (by omega)]
  rw [whole] at run
  exact ⟨value, lines, run, perfectlyMerged_of tree⟩

end Perfect

section Whole

variable {mod : Int} {data : ChainData} {ch vars : List Text}

theorem roundSegments_length : (roundSegments data ch mod).length = data.ops.length / 2 - 1 := by
  simp [roundSegments, roundStarts]

theorem roundSegments_getElem? {t : Nat} {s : Segment} (found : (roundSegments data ch mod)[t]? = some s) :
    s = roundSegment data ch mod (2 * (t + 1)) := by
  have inside := (List.getElem?_eq_some_iff.mp found).1
  rw [roundSegments_length] at inside
  rw [roundSegments, roundStarts, List.getElem?_map, List.getElem?_map, List.getElem?_range' inside] at found
  rw [← Option.some.inj found]
  congr 1
  simp only
  omega

-- The resolve lines of a hierarchical solution are the inner nodes of the perfect tree over the
-- pairs of operations, and only blocks of one size meet.
theorem balance_perfect {k : Nat} (exponent : 1 ≤ k) (nonzero : mod ≠ 0) :
    (∀ (segments : List Segment) (baseVal : Int) (baseVar : Text), segments.length = 2 ^ (k - 1) - 1 →
      ∃ value lines, balanceResolve mod segments baseVal baseVar = .ok (value, lines) ∧
        PerfectlyMerged mod segments baseVal (k - 1) lines) ∧
    ∀ (data : ChainData) (vars : List Text), data.Sized → data.ops.length = 2 ^ k →
      data.ops.length + 1 ≤ vars.length →
      (balanceforwardSolution vars data mod).Safe ∧
        ∀ text, (balanceforwardSolution vars data mod).Returns text →
          ∃ ch, ch.Perm vars ∧ ∃ parts segments resolved resolveLines,
            balanceParts ch data mod = .ok (parts, segments) ∧
            balanceEnd ch data mod segments = .ok (resolved, resolveLines) ∧
            text = solutionText (parts ++ resolveLines) (data.value data.ops.length) ∧
            (perfect (k - 1)).leaves = data.ops.length / 2 ∧ segments.length + 1 = data.ops.length / 2 ∧
            (∀ t s, segments[t]? = some s → s = roundSegment data ch mod (2 * (t + 1)) ∧
              (1 ≤ mod → Spans data ch mod (2 * (t + 1)) (2 * (t + 1) + 2) s)) ∧
            PerfectlyMerged mod segments (data.value 2) (k - 1) resolveLines ∧
            resolveLines.length = data.ops.length / 2 - 1 := by
  obtain ⟨depth, rfl⟩ := Nat.exists_eq_add_of_le' exponent
  rw [Nat.add_sub_cancel]
  refine ⟨fun segments baseVal baseVar length => balanceResolve_merged nonzero baseVar length,
    fun data vars sized power enough => ?_⟩
  have accepted := power_accepted exponent power
  have half : data.ops.length / 2 = 2 ^ depth := by rw [power, Nat.pow_succ, Nat.mul_div_cancel _ (by omega)]
  have filled : 0 < 2 ^ depth := Nat.pow_pos (by omega)
  have two : 2 ≤ data.ops.length := by omega
  -- what every order of the variables leads to
  have told (ch : List Text) (perm : ch.Perm vars) : ∃ resolved resolveLines,
      balanceEnd ch data mod (roundSegments data ch mod) = .ok (resolved, resolveLines) ∧
      balanceforwardText ch data mod =
        .ok (solutionText (partLines data ch mod ++ resolveLines) (data.value data.ops.length)) ∧
      PerfectlyMerged mod (roundSegments data ch mod) (data.value 2) depth resolveLines := by
    have long : data.ops.length + 1 ≤ ch.length := by rwa [perm.length_eq]
    have length := @roundSegments_length mod data ch
    rw [half] at length
    obtain ⟨resolved, resolveLines, run, merged⟩ := @balanceResolve_merged mod (data.value 2)
      (roundSegments data ch mod) nonzero depth (varOf ch 2) length
    have ended : balanceEnd ch data mod (roundSegments data ch mod) = .ok (resolved, resolveLines) := by
      rw [balanceEnd, sized.item_value two, pop_ok (by omega)]
      exact run
    exact ⟨resolved, resolveLines, ended, balanceforwardText_eq nonzero sized long two ended, merged⟩
  simp only [balanceforwardSolution, if_neg accepted]
  refine shuffled_all fun ch perm => ?_
  obtain ⟨resolved, resolveLines, ended, made, merged⟩ := told ch perm
  have long : data.ops.length + 1 ≤ ch.length := by rwa [perm.length_eq]
  refine ⟨_, made, ch, perm, partLines data ch mod, roundSegments data ch mod, resolved, resolveLines,
    balanceParts_eq nonzero sized long two, ended, rfl, ?_, ?_, fun t s found => ?_, merged, ?_⟩
  · rw [MergeTree.leaves_perfect, half]
  · rw [roundSegments_length, half, Nat.sub_add_cancel filled]
  · obtain rfl := roundSegments_getElem? found
    exact ⟨rfl, fun positive => roundSegment_spans positive⟩
  · rw [merged.count, half]

theorem balance_perfect_eight : (∃ value lines,
    balanceResolve 5 [⟨lit "GH", lit "CD", ⟨2, 1⟩⟩, ⟨lit "KL", lit "GH", ⟨3, 4⟩⟩, ⟨lit "OP", lit "KL", ⟨1, 2⟩⟩] 3
      (lit "CD") = .ok (value, lines) ∧
    PerfectlyMerged 5 [⟨lit "GH", lit "CD", ⟨2, 1⟩⟩, ⟨lit "KL", lit "GH", ⟨3, 4⟩⟩, ⟨lit "OP", lit "KL", ⟨1, 2⟩⟩] 3
      (3 - 1) lines) ∧
    ∃ (ch : List Text) (parts : List Line) (segments : List Segment) (resolveLines : List Line), ch.Perm variableNames ∧
      (balanceforwardSolution variableNames eightChain 5).Returns (solutionText (parts ++ resolveLines) 3) ∧
      PerfectlyMerged 5 segments (eightChain.value 2) (3 - 1) resolveLines ∧ resolveLines.length = 3 := by
  obtain ⟨rows, chains⟩ := balance_perfect (by decide : 1 ≤ 3) (by decide : (5 : Int) ≠ 0)
  refine ⟨rows [⟨lit "GH", lit "CD", ⟨2, 1⟩⟩, ⟨lit "KL", lit "GH", ⟨3, 4⟩⟩, ⟨lit "OP", lit "KL", ⟨1, 2⟩⟩] 3
    (lit "CD") rfl, ?_⟩
  obtain ⟨safe, each⟩ := chains eightChain variableNames eightChain_follows.toSized rfl (by
    rw [variableNames_length]
    decide)
  obtain ⟨text, returned⟩ := exists_returns safe
  obtain ⟨ch, same, parts, segments, -, resolveLines, -, -, rfl, -, -, -, merged, count⟩ := each text returned
  exact ⟨ch, parts, segments, resolveLines, same, returned, merged, count⟩

end Whole

section Folding

variable {mod : Int} {data : ChainData} {ch : List Text} {i j k : Nat}

theorem balanceChainRight_folded (nonzero : mod ≠ 0) (segments : List Segment) (filled : segments ≠ [])
    (pivotVar : Text) :
    ∃ f lines, balanceChainRight mod segments pivotVar = .ok (f, lines) ∧
      Folded mod (segments.map Segment.form) f := by
  induction segments using halves_induction generalizing pivotVar with
  | nil => exact absurd rfl filled
  | single segment => exact ⟨segment.form, [], by rw [balanceChainRight], .single _⟩
  | halves left right half leftFilled rightFilled ihLeft ihRight =>
    obtain ⟨f, leftLines, leftRun, leftFolded⟩ := ihLeft leftFilled pivotVar
    obtain ⟨mid, midIs⟩ : ∃ mid, lastItem left = .ok mid := ⟨_, lastItem_ok (left.head leftFilled) leftFilled⟩
    obtain ⟨g, rightLines, rightRun, rightFolded⟩ := ihRight rightFilled mid.endpointVar
    obtain ⟨last, lastIs⟩ : ∃ last, lastItem right = .ok last :=
      ⟨_, lastItem_ok (right.head rightFilled) rightFilled⟩
    rw [List.map_append]
    exact ⟨_, _, balanceChainRight_run nonzero half leftFilled leftRun midIs rightRun lastIs,
      leftFolded.split rightFolded⟩

def ChainData.upTo (data : ChainData) (stop : Nat) : ChainData :=
  { data with
    chainNames := data.chainNames.take (stop + 1)
    values := data.values.take (stop + 1)
    constants := data.constants.take stop
    ops := data.ops.take stop }

theorem ChainData.upTo_length (within : j ≤ data.ops.length) : (data.upTo j).ops.length = j := by
  simpa [ChainData.upTo] using within

theorem ChainData.Sized.upTo (sized : data.Sized) (within : j ≤ data.ops.length) : (data.upTo j).Sized where
  names := by simp [ChainData.upTo, sized.names, within]
  values := by simp [ChainData.upTo, sized.values, within]
  constants := by simp [ChainData.upTo, sized.constants]

theorem ChainData.forms_upTo : (data.upTo j).forms i j = data.forms i j := by
  refine List.map_congr_left fun index member => ?_
  obtain ⟨low, high⟩ := List.mem_range'_1.mp member
  have inside : index < j := by omega
  simp [ChainData.op, ChainData.const, ChainData.upTo, inside]

theorem atRound_exists (nonzero : mod ≠ 0) (sized : data.Sized) (within : k < data.ops.length) :
    ∃ f, AtRound data ch mod k f := by
  have ordered : k ≤ data.ops.length - 1 := by omega
  induction ordered using Nat.decreasingInduction with
  | self => exact ⟨_, .start (rightforwardStart_eq nonzero sized (by omega))⟩
  | of_succ k less ih =>
    obtain ⟨f, before⟩ := ih (by omega)
    exact ⟨_, .next before (rightforwardRound_eq nonzero sized f (by omega))⟩

theorem atRound_iff_covers (positive : 1 ≤ mod) (sized : data.Sized) (ordered : i < j)
    (within : j ≤ data.ops.length) (f : Affine Int) :
    AtRound (data.upTo j) ch mod i f ↔ Covers mod (data.forms i j) f := by
  have length := ChainData.upTo_length within
  have sized := sized.upTo within
  have covers {g : Affine Int} (atRound : AtRound (data.upTo j) ch mod i g) : Covers mod (data.forms i j) g := by
    have covered := (atRound.covers positive sized (by omega)).2
    rwa [length, ChainData.forms_upTo] at covered
  refine ⟨covers, fun covered => ?_⟩
  obtain ⟨g, atRound⟩ := @atRound_exists mod (data.upTo j) ch i (by omega) sized (by omega)
  rwa [covered.unique (covers atRound)]

-- Folding the halves composes the segments in order, as does any other splitting, and as does
-- substituting the operations one by one from the last to the first.
theorem balanceChainRight_sequential (positive : 1 ≤ mod) {segments : List Segment} (filled : segments ≠ [])
    (normal : ∀ s ∈ segments, IsCanonical mod s.form) (pivotVar : Text) :
    ∃ f lines, balanceChainRight mod segments pivotVar = .ok (f, lines) ∧
      f = Affine.canonical mod (composed (segments.map Segment.form)) ∧
      (∀ g, Folded mod (segments.map Segment.form) g → g = f) ∧
      ∀ (data : ChainData) (ch : List Text) (i j : Nat) (blocks : List (List (Affine Int))), data.Sized →
        i < j → j ≤ data.ops.length → blocks.flatten = data.forms i j →
        List.Forall₂ (fun steps s => s.form = Affine.canonical mod (composed steps)) blocks segments →
        ∀ g, AtRound (data.upTo j) ch mod i g ↔ g = f := by
  obtain ⟨f, lines, run, folded⟩ := balanceChainRight_folded (by omega : mod ≠ 0) segments filled pivotVar
  have normal : ∀ form ∈ segments.map Segment.form, IsCanonical mod form := by simpa using normal
  have covers := folded.covers (by omega) normal
  refine ⟨f, lines, run, ?_, fun g other => (other.covers (by omega) normal).unique covers, ?_⟩
  · exact covers.canonical.eq_of_congr (Affine.canonical_isCanonical (by omega) _)
      (covers.congr.trans (Affine.canonical_congr mod _).symm)
  · intro data ch i j blocks sized ordered within whole each g
    have same : Affine.Congr mod (composed (segments.map Segment.form)) (composed blocks.flatten) := by
      refine Affine.composed_flatten (List.forall₂_map_right_iff.mpr (each.imp fun steps s is => ?_))
      rw [is]
      exact Affine.canonical_congr mod _
    have covers : Covers mod (data.forms i j) f := ⟨covers.canonical, whole ▸ covers.congr.trans same⟩
    rw [atRound_iff_covers positive sized ordered within]
    exact ⟨fun other => other.unique covers, fun is => is ▸ covers⟩

theorem balanceChainRight_sequential_pair : ∃ f lines,
    balanceChainRight 5 [⟨lit "CD", lit "AB", ⟨1, 2⟩⟩, ⟨lit "EF", lit "CD", ⟨2, 0⟩⟩] (lit "AB") = .ok (f, lines) ∧
      AtRound (pairChain.upTo 2) variableNames 5 0 f := by
  obtain ⟨f, lines, run, _, _, reached⟩ := balanceChainRight_sequential (by decide : (1 : Int) ≤ 5)
    (List.cons_ne_nil (⟨lit "CD", lit "AB", ⟨1, 2⟩⟩ : Segment) [⟨lit "EF", lit "CD", ⟨2, 0⟩⟩])
    (by simp only [List.forall_mem_cons]
        exact ⟨⟨by decide, by decide, by decide, by decide⟩, ⟨by decide, by decide, by decide, by decide⟩, by simp⟩)
    (lit "AB")
  refine ⟨f, lines, run, (reached pairChain variableNames 0 2 [[⟨1, 2⟩], [⟨2, 0⟩]] pairChain_follows.toSized
    (by decide) (by decide) (by decide) ?_ f).mpr rfl⟩
  exact .cons (by decide) (.cons (by decide) .nil)

end Folding

end CotCompression
