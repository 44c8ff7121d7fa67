import CotCompression.Generator.Backward
import CotCompression.Generator.Hierarchical

set_option autoImplicit false

namespace CotCompression

open Program (Prog)
open Text (lit decimal)
open Expression (IsName)

def Rendered (result : Except PyError Text) (answer : Int) : Prop :=
  ∃ lines, result = .ok (solutionText lines answer) ∧ ∀ line ∈ lines, line.Clear

structure Renderable (ch : List Text) (data : ChainData) : Prop where
  sized : data.Sized
  pool : Pool ch (data.ops.length + 1)
  names : ∀ name ∈ data.chainNames, Plain name

theorem plain_of_isName {x : Text} (named : IsName x) : Plain x := by
  intro c member
  have letter := named.2 c member
  simp [isPlain, Char.isAlphanum, letter]

section Renderers

variable {ch : List Text} {data : ChainData} {mod : Int} (ready : Renderable ch data)

include ready in
theorem name_plain {i : Nat} (within : i ≤ data.ops.length) : Plain (data.name i) := by
  have inside : i < data.chainNames.length := by rw [ready.sized.names]; omega
  rw [ChainData.name, List.getD_eq_getElem?_getD, List.getElem?_eq_getElem inside]
  exact ready.names _ (List.getElem_mem inside)

include ready in
theorem var_plain {i : Nat} (within : i ≤ data.ops.length) : Plain (varOf ch i) :=
  plain_of_isName (ready.pool.varOf_named (by omega))

include ready in
theorem pop_some {i : Nat} (within : i ≤ data.ops.length) : pop ch i = .ok (varOf ch i) :=
  pop_ok (by have := ready.pool.enough; omega)

include ready in
theorem rendered_of_lines {lines : Except PyError (List Line)}
    (made : ∃ parts, lines = .ok parts ∧ ∀ line ∈ parts, line.Clear) :
    Rendered (do
      let parts ← lines
      let answer ← lastItem data.values
      return solutionText parts answer) (data.value data.ops.length) := by
  obtain ⟨parts, rfl, clear⟩ := made
  exact ⟨parts, by rw [ready.sized.last_value]; rfl, clear⟩

include ready in
theorem forwardLine_clear {i : Nat} (within : i ≤ data.ops.length) : (forwardLine ch data i).Clear := by
  unfold forwardLine
  split
  · refine clear_define (name_plain ready (by omega)) (var_plain ready (by omega)) ?_
    simp only [List.forall_mem_cons]
    exact ⟨var_plain ready (by omega), plain_decimal _, by simp⟩
  · refine clear_define (name_plain ready within) (var_plain ready within) ?_
    simp only [List.forall_mem_cons]
    exact ⟨var_plain ready within, plain_opText (var_plain ready (by omega)) _ _,
      plain_opText (plain_decimal _) _ _, plain_decimal _, by simp⟩

include ready in
theorem normalforward_rendered :
    Rendered (normalforwardText ch data) (data.value data.ops.length) := by
  refine rendered_of_lines ready ⟨_, normalforwardLines_eq ready.sized ready.pool.enough, ?_⟩
  intro line member
  obtain ⟨i, inside, rfl⟩ := List.mem_map.mp member
  exact forwardLine_clear ready (by have := List.mem_range.mp inside; omega)

section Breakpoints

structure Breaks (op : Nat) (points : List Nat) : Prop where
  first : points.head? = some 0
  increasing : points.Pairwise (· < ·)
  within : ∀ p ∈ points, p ≤ op
  length_le : points.length ≤ op + 1

theorem breakpoints_pos {op : Nat} {maxNest : Int} (positive : 1 ≤ maxNest) (some : 1 ≤ op) :
    breakpoints op maxNest =
      .ok ((List.range ((op - 1) / maxNest.toNat + 1)).map (maxNest.toNat * ·) ++ [op]) := by
  obtain ⟨n, rfl⟩ := Int.eq_ofNat_of_zero_le (by omega : 0 ≤ maxNest)
  obtain ⟨op, rfl⟩ := Nat.exists_eq_add_of_le' some
  have count : ((((op + 1 : Nat) : Int) - n + n - 1) / n).toNat = op / n := by
    rw [show (((op + 1 : Nat) : Int) - n + n - 1) = (op : Int) by push_cast; ring]
    rfl
  have below : n * (op / n) ≤ op := Nat.mul_div_le op n
  have points : 0 :: ((List.range (op / n)).map fun index : Nat => (n : Int) + index * n).map Int.toNat =
      (List.range (op / n + 1)).map (n * ·) := by
    rw [List.range_succ_eq_map, List.map_cons, Nat.mul_zero, List.map_map, List.map_map]
    congr 1
    refine List.map_congr_left fun index _ => ?_
    simp only [Function.comp_apply, Nat.mul_succ]
    rw [show (n : Int) + index * n = ((n * index + n : Nat) : Int) by push_cast; ring, Int.toNat_natCast]
  have last : ((List.range (op / n + 1)).map (n * ·)).getLast? ≠ Option.some (op + 1) := by
    rw [List.range_succ, List.map_append, List.map_singleton, List.getLast?_append]
    simp only [List.getLast?_singleton, Option.some_or, ne_eq, Option.some.injEq]
    omega
  rw [breakpoints, pyRange, if_neg (by omega : ¬ ((n : Int) = 0)), if_pos (by omega : 0 < (n : Int)),
    ok_bind]
  simp only [count, points, if_neg last, Int.toNat_natCast, Nat.add_sub_cancel]
  rfl

theorem breakpoints_breaks {op : Nat} {maxNest : Int} (nonzero : maxNest ≠ 0) (some : 1 ≤ op) :
    ∃ points, breakpoints op maxNest = .ok points ∧ Breaks op points := by
  rcases lt_or_gt_of_ne nonzero with negative | positive
  · -- a negative step runs away from op at once
    have empty : (((maxNest : Int) - op - maxNest - 1) / (-maxNest)).toNat = 0 := by
      have := Int.ediv_neg_of_neg_of_pos (by omega : maxNest - (op : Int) - maxNest - 1 < 0)
        (by omega : 0 < -maxNest)
      omega
    refine ⟨[0, op], ?_, rfl, by simpa using Nat.pos_of_ne_zero (by omega), by simp, by simpa using some⟩
    rw [breakpoints, pyRange, if_neg nonzero, if_neg (by omega), ok_bind]
    simp only [empty, List.range_zero, List.map_nil, List.getLast?_singleton, Option.some.injEq]
    rw [if_neg (by omega)]
    rfl
  · obtain ⟨n, rfl⟩ := Int.eq_ofNat_of_zero_le (by omega : 0 ≤ maxNest)
    have one : 1 ≤ n := by omega
    refine ⟨_, breakpoints_pos (by omega) some, ?_⟩
    simp only [Int.toNat_natCast]
    have below := Nat.mul_div_le (op - 1) n
    have few : (op - 1) / n ≤ op - 1 := Nat.div_le_self _ _
    have inside {p : Nat} (member : p ∈ (List.range ((op - 1) / n + 1)).map (n * ·)) : p < op := by
      obtain ⟨index, small, rfl⟩ := List.mem_map.mp member
      have le : n * index ≤ n * ((op - 1) / n) :=
        Nat.mul_le_mul_left n (by have := List.mem_range.mp small; omega)
      omega
    refine ⟨by rw [List.range_succ_eq_map]; rfl, ?_, ?_, ?_⟩
    · refine List.pairwise_append.mpr ⟨?_, by simp, ?_⟩
      · rw [List.pairwise_map]
        exact List.pairwise_lt_range.imp fun small => Nat.mul_lt_mul_of_pos_left small one
      · intro p member q last
        rw [List.mem_singleton.mp last]
        exact inside member
    · intro p member
      rcases List.mem_append.mp member with member | member
      · exact (inside member).le
      · exact (List.mem_singleton.mp member).le
    · simp only [List.length_append, List.length_map, List.length_range, List.length_singleton]
      omega

theorem Breaks.zero {op : Nat} {points : List Nat} (breaks : Breaks op points) : points[0]? = some 0 := by
  rw [← List.head?_eq_getElem?]
  exact breaks.first

theorem Breaks.pair {op g : Nat} {points : List Nat} (breaks : Breaks op points)
    (inside : g + 1 < points.length) :
    ∃ p q, points[g]? = some p ∧ points[g + 1]? = some q ∧ p < q ∧ q ≤ op := by
  refine ⟨points[g], points[g + 1], List.getElem?_eq_getElem _, List.getElem?_eq_getElem _, ?_,
    breaks.within _ (List.getElem_mem inside)⟩
  exact List.pairwise_iff_getElem.mp breaks.increasing g (g + 1) _ _ (Nat.lt_succ_self g)

end Breakpoints

theorem plain_growExpression {expr : Text} (plain : Plain expr) (needsParens : Bool)
    (ops : List (Op × Int)) : Plain (growExpression expr needsParens ops) := by
  induction ops generalizing expr needsParens with
  | nil => exact plain
  | cons entry rest ih =>
    obtain ⟨o, c⟩ := entry
    refine ih (plain_opText ?_ o c) _
    split
    · exact plain_parens plain
    · exact plain

theorem runOps_some (nonzero : mod ≠ 0) (curr : Int) (ops : List (Op × Int)) :
    ∃ result, runOps mod curr ops = .ok result := by
  induction ops generalizing curr with
  | nil => exact ⟨curr, rfl⟩
  | cons entry rest ih =>
    obtain ⟨o, c⟩ := entry
    obtain ⟨next, made⟩ := pyMod_some nonzero (o.apply curr c)
    obtain ⟨result, rest⟩ := ih next
    exact ⟨result, by rw [runOps, made, ok_bind, rest]⟩

include ready in
theorem firstLine_clear :
    (Line.define (data.name 0) (varOf ch 0) [varOf ch 0, decimal (data.value 0)]).Clear := by
  have clear := forwardLine_clear ready (Nat.zero_le _)
  rwa [forwardLine, if_pos rfl] at clear

include ready in
theorem composedLine_clear {g p q : Nat} (curr : Int) (place : g + 1 ≤ data.ops.length)
    (within : q ≤ data.ops.length) : (composedLine ch data g p q curr).Clear := by
  refine clear_define (name_plain ready within) (var_plain ready place) ?_
  simp only [List.forall_mem_cons]
  exact ⟨var_plain ready place, plain_growExpression (var_plain ready (by omega)) _ _,
    plain_growExpression (plain_decimal _) _ _, plain_decimal _, by simp⟩

include ready in
theorem composedRound_clear (nonzero : mod ≠ 0) {points : List Nat} (breaks : Breaks data.ops.length points)
    {g : Nat} (inside : g < points.length) :
    ∃ line, composedRound ch data mod points g = .ok line ∧ line.Clear := by
  have sized := ready.sized
  have enough := ready.pool.enough
  have small := breaks.length_le
  cases g with
  | zero => exact ⟨_, composedRound_zero sized (by omega) breaks.zero, forwardLine_clear ready (Nat.zero_le _)⟩
  | succ g =>
    obtain ⟨p, q, here, next, less, within⟩ := breaks.pair inside
    obtain ⟨curr, ran⟩ := runOps_some nonzero (data.value p) (sliceOps data p q)
    exact ⟨_, composedRound_succ sized (by omega) here next less.le within ran,
      composedLine_clear ready curr (by omega) within⟩

include ready in
theorem simplifiedRound_clear (nonzero : mod ≠ 0) {points : List Nat}
    (breaks : Breaks data.ops.length points) {g : Nat} (inside : g < points.length) :
    ∃ line, simplifiedRound ch data mod points g = .ok line ∧ line.Clear := by
  have sized := ready.sized
  have enough := ready.pool.enough
  have small := breaks.length_le
  cases g with
  | zero => exact ⟨_, simplifiedRound_zero sized (by omega) breaks.zero, forwardLine_clear ready (Nat.zero_le _)⟩
  | succ g =>
    obtain ⟨p, q, here, next, less, within⟩ := breaks.pair inside
    obtain ⟨curr, ran⟩ := runOps_some nonzero (data.value p) (sliceOps data p (q - 1))
    refine ⟨_, simplifiedRound_succ sized (by omega) here next less within ran,
      clear_define (name_plain ready within) (var_plain ready (by omega)) ?_⟩
    split
    · simp only [List.forall_mem_cons]
      exact ⟨var_plain ready (by omega), plain_opText (var_plain ready (by omega)) _ _,
        plain_opText (plain_decimal _) _ _, plain_decimal _, by simp⟩
    · simp only [List.forall_mem_cons]
      exact ⟨var_plain ready (by omega), plain_opText (plain_decimal _) _ _, plain_decimal _, by simp⟩

include ready in
theorem composedforward_rendered (nonzero : mod ≠ 0) (some : 1 ≤ data.ops.length) {maxNest : Int}
    (step : maxNest ≠ 0) :
    Rendered (composedforwardText ch data mod maxNest) (data.value data.ops.length) := by
  obtain ⟨points, made, breaks⟩ := breakpoints_breaks step some
  rw [composedforwardText, made, ok_bind]
  exact rendered_of_lines ready (mapM_exists fun g member =>
    composedRound_clear ready nonzero breaks (List.mem_range.mp member))

include ready in
theorem simplifiedforward_rendered (nonzero : mod ≠ 0) (some : 1 ≤ data.ops.length) {maxNest : Int}
    (step : maxNest ≠ 0) :
    Rendered (simplifiedforwardText ch data mod maxNest) (data.value data.ops.length) := by
  obtain ⟨points, made, breaks⟩ := breakpoints_breaks step some
  rw [simplifiedforwardText, made, ok_bind]
  exact rendered_of_lines ready (mapM_exists fun g member =>
    simplifiedRound_clear ready nonzero breaks (List.mem_range.mp member))

theorem breakpoints_none {maxNest : Int} (negative : maxNest < 0) : breakpoints 0 maxNest = .ok [0] := by
  have empty : ((maxNest - (0 : Nat) - maxNest - 1) / (-maxNest)).toNat = 0 := by
    have := Int.ediv_neg_of_neg_of_pos (by omega : maxNest - ((0 : Nat) : Int) - maxNest - 1 < 0)
      (by omega : 0 < -maxNest)
    omega
  rw [breakpoints, pyRange, if_neg (by omega), if_neg (by omega), ok_bind]
  simp only [empty, List.range_zero, List.map_nil, List.getLast?_singleton, if_true]
  rfl

include ready in
theorem implicitRound_clear {points : List Nat} (within : ∀ p ∈ points, p ≤ data.ops.length) {g : Nat}
    (inside : g < points.length) : ∃ line, implicitRound data points g = .ok line ∧ line.Clear := by
  have sized := ready.sized
  have member := within _ (List.getElem_mem inside)
  have found : item points g = .ok points[g] := by simp [item, inside]
  rw [implicitRound, found, ok_bind]
  split
  · rw [sized.item_name (by omega), sized.item_value (by omega)]
    refine ⟨_, rfl, clear_equation ?_⟩
    simpa using ⟨name_plain ready (by omega), plain_decimal _⟩
  · rw [sized.item_name member, sized.item_value member]
    refine ⟨_, rfl, clear_equation ?_⟩
    simpa using ⟨name_plain ready member, plain_decimal _⟩

include ready in
theorem implicit_rendered {maxNest : Int} (step : maxNest = 0 → data.ops.length = 0) :
    Rendered (implicitSolution data maxNest) (data.value data.ops.length) := by
  have made : ∃ points, implicitBreakpoints data.ops.length maxNest = .ok points ∧
      ∀ p ∈ points, p ≤ data.ops.length := by
    unfold implicitBreakpoints
    split
    · exact ⟨_, rfl, by simp⟩
    · by_cases some : 1 ≤ data.ops.length
      · obtain ⟨points, made, breaks⟩ := breakpoints_breaks (by omega : maxNest ≠ 0) some
        exact ⟨points, made, breaks.within⟩
      · have none : data.ops.length = 0 := by omega
        rw [none, breakpoints_none (by omega)]
        exact ⟨_, rfl, by simp⟩
  obtain ⟨points, made, within⟩ := made
  rw [implicitSolution, made, ok_bind]
  exact rendered_of_lines ready (mapM_exists fun g member =>
    implicitRound_clear ready within (List.mem_range.mp member))

section Backward

include ready in
theorem rightLine_clear {k : Nat} (f : Affine Int) (within : k + 1 < data.ops.length) :
    (rightLine data ch mod k f).Clear := by
  refine clear_define (name_plain ready (by omega)) (var_plain ready (by omega)) ?_
  simp only [List.forall_mem_cons]
  exact ⟨var_plain ready le_rfl, plain_formatLinear (var_plain ready (by omega)) _,
    plain_formatLinear (plain_parens (plain_opText (var_plain ready (by omega)) _ _)) _,
    plain_formatLinear (var_plain ready (by omega)) _, by simp⟩

include ready in
theorem rightforwardLoop_clear (nonzero : mod ≠ 0) {k : Nat} (f : Affine Int)
    (within : k < data.ops.length) :
    ∃ lines g, rightforwardLoop data ((List.range data.values.length).map (varOf ch))
      (varOf ch data.ops.length) mod k f = .ok (lines, g) ∧ ∀ line ∈ lines, line.Clear := by
  induction k generalizing f with
  | zero => exact ⟨[], f, rfl, by simp⟩
  | succ k ih =>
    obtain ⟨lines, last, run, rest⟩ := ih (Affine.canonical mod ((data.op k).before (data.const k) f))
      (by omega)
    refine ⟨rightLine data ch mod k f :: lines, last, ?_,
      List.forall_mem_cons.mpr ⟨rightLine_clear ready f within, rest⟩⟩
    rw [rightforwardLoop, rightforwardRound_eq nonzero ready.sized f within]
    simp only [ok_bind, run]
    rfl

theorem Extended.clear {sides : List Text} {line shown : Line} (extended : Extended sides line shown)
    (clear : line.Clear) (plain : ∀ side ∈ sides, Plain side) : shown.Clear := by
  obtain ⟨same, _, each⟩ := extended
  refine ⟨fun side inside => ?_, same ▸ clear.introduces⟩
  rcases each side inside with old | new
  · exact clear.sides side old
  · exact plain side new

include ready in
theorem rightforwardLines_clear (nonzero : mod ≠ 0) (some : 1 ≤ data.ops.length) :
    ∃ parts answer, rightforwardLines ch data mod = .ok (parts, answer) ∧ ∀ line ∈ parts, line.Clear := by
  have sized := ready.sized
  have target := var_plain ready (le_refl data.ops.length)
  have started := rightforwardStart_eq nonzero sized some
  set form := Affine.canonical mod
    ((data.op (data.ops.length - 1)).form (data.const (data.ops.length - 1)))
  obtain ⟨lines, last, run, clear⟩ :=
    rightforwardLoop_clear ready nonzero form (by omega : data.ops.length - 1 < data.ops.length)
  obtain ⟨answer, made⟩ := pyMod_some nonzero (last.apply (data.value 0))
  have definition : (targetLine data ch form).Clear := by
    refine clear_define (name_plain ready le_rfl) target ?_
    simpa using ⟨target, plain_formatLinear (var_plain ready (by omega)) form⟩
  have sides : ∀ side ∈ [formatLinear last (parens (decimal (data.value 0))), decimal answer],
      Plain side := by
    simpa using ⟨plain_formatLinear (plain_parens (plain_decimal _)) last, plain_decimal answer⟩
  obtain ⟨rest, extended, related⟩ := extendLast_extended [originLine data ch]
    (List.cons_ne_nil (targetLine data ch form) lines)
    [formatLinear last (parens (decimal (data.value 0))), decimal answer]
  have allClear := List.forall_mem_cons.mpr ⟨definition, clear⟩
  refine ⟨originLine data ch :: rest, answer, ?_, List.forall_mem_cons.mpr ⟨firstLine_clear ready, ?_⟩⟩
  · rw [rightforwardLines_eq sized ready.pool.enough started run made, extended]
    rfl
  · intro line member
    obtain ⟨index, within, rfl⟩ := List.getElem_of_mem member
    have known : index < (targetLine data ch form :: lines).length := by rwa [related.length_eq]
    exact (related.get known within).clear (allClear _ (List.getElem_mem known)) sides

include ready in
theorem rightforward_rendered (nonzero : mod ≠ 0) (some : 1 ≤ data.ops.length) :
    Rendered (rightforwardText ch data mod) (data.value data.ops.length) := by
  obtain ⟨parts, answer, made, clear⟩ := rightforwardLines_clear ready nonzero some
  refine ⟨parts, ?_, clear⟩
  rw [rightforwardText, made, ready.sized.last_value]
  rfl

end Backward

section Hierarchical

theorem lastItem_mem {α : Type} {xs : List α} (filled : xs ≠ []) : ∃ x ∈ xs, lastItem xs = .ok x := by
  obtain ⟨initial, last, rfl⟩ : ∃ initial last, xs = initial ++ [last] :=
    ⟨_, _, (List.dropLast_append_getLast filled).symm⟩
  exact ⟨last, by simp, by simp [lastItem]⟩

structure Segment.Plain (s : Segment) : Prop where
  endpoint : CotCompression.Plain s.endpointVar
  base : CotCompression.Plain s.baseVar

theorem balanceChainRight_clear (nonzero : mod ≠ 0) (segments : List Segment) {pivot : Text}
    (filled : segments ≠ []) (pivotPlain : Plain pivot) (plain : ∀ s ∈ segments, s.Plain) :
    ∃ f lines, balanceChainRight mod segments pivot = .ok (f, lines) ∧ ∀ line ∈ lines, line.Clear := by
  induction segments using halves_induction generalizing pivot with
  | nil => exact absurd rfl filled
  | single segment => exact ⟨segment.form, [], by rw [balanceChainRight], by simp⟩
  | halves left right half leftFilled rightFilled ihLeft ihRight =>
    obtain ⟨midSegment, midMem, midFound⟩ := lastItem_mem leftFilled
    obtain ⟨endSegment, endMem, endFound⟩ := lastItem_mem rightFilled
    rw [List.forall_mem_append] at plain
    have endPlain := (plain.2 endSegment endMem).endpoint
    have midPlain := (plain.1 midSegment midMem).endpoint
    obtain ⟨f, leftLines, leftRun, leftClear⟩ := ihLeft leftFilled pivotPlain plain.1
    obtain ⟨g, rightLines, rightRun, rightClear⟩ := ihRight rightFilled midPlain plain.2
    refine ⟨_, _, balanceChainRight_run nonzero half leftFilled leftRun midFound rightRun endFound,
      List.forall_mem_append.mpr ⟨List.forall_mem_append.mpr ⟨leftClear, rightClear⟩, ?_⟩⟩
    simp only [List.mem_singleton, forall_eq]
    refine clear_equation ?_
    simpa using ⟨endPlain, plain_formatLinear midPlain g, plain_formatLinear pivotPlain _⟩

theorem balanceResolve_clear (nonzero : mod ≠ 0) (segments : List Segment) (baseVal : Int) (baseVar : Text)
    (plain : ∀ s ∈ segments, s.Plain) :
    ∃ value lines, balanceResolve mod segments baseVal baseVar = .ok (value, lines) ∧
      ∀ line ∈ lines, line.Clear := by
  induction segments using halves_induction with
  | nil => exact ⟨baseVal, [], by rw [balanceResolve], by simp⟩
  | single segment =>
    obtain ⟨endpoint, base⟩ := plain segment (by simp)
    obtain ⟨value, made⟩ := pyMod_some nonzero (segment.form.apply baseVal)
    rw [balanceResolve, made]
    refine ⟨_, _, rfl, ?_⟩
    simp only [List.mem_singleton, forall_eq]
    refine clear_equation ?_
    simpa using ⟨endpoint, plain_formatLinear base segment.form,
      plain_formatLinearWithLiteral segment.form baseVal, plain_decimal value⟩
  | halves left right half leftFilled rightFilled ihLeft =>
    rw [List.forall_mem_append] at plain
    obtain ⟨midSegment, midMem, midFound⟩ := lastItem_mem leftFilled
    obtain ⟨endSegment, endMem, endFound⟩ := lastItem_mem rightFilled
    have midPlain := (plain.1 midSegment midMem).endpoint
    obtain ⟨leftVal, leftLines, leftRun, leftClear⟩ := ihLeft plain.1
    obtain ⟨g, rightLines, rightRun, rightClear⟩ :=
      balanceChainRight_clear nonzero right rightFilled midPlain plain.2
    obtain ⟨value, made⟩ := pyMod_some nonzero (g.apply leftVal)
    refine ⟨_, _, balanceResolve_run half leftFilled leftRun midFound rightRun endFound made,
      List.forall_mem_append.mpr ⟨List.forall_mem_append.mpr ⟨leftClear, rightClear⟩, ?_⟩⟩
    simp only [List.mem_singleton, forall_eq]
    refine clear_equation ?_
    simpa using ⟨(plain.2 endSegment endMem).endpoint, plain_formatLinear midPlain g,
      plain_formatLinearWithLiteral g leftVal, plain_decimal value⟩

include ready in
theorem lineA_clear {i : Nat} (within : i + 2 ≤ data.ops.length) : (lineA data ch mod i).Clear := by
  have base := var_plain ready (by omega : i ≤ data.ops.length)
  have var := var_plain ready (by omega : i + 1 ≤ data.ops.length)
  refine clear_define (name_plain ready (by omega)) var ?_
  split
  · simpa using ⟨var, plain_opText base _ _, plain_formatLinear base _⟩
  · simpa using ⟨var, plain_opText base _ _⟩

include ready in
theorem lineB_clear {i : Nat} (within : i + 2 ≤ data.ops.length) : (lineB data ch mod i).Clear := by
  have base := var_plain ready (by omega : i ≤ data.ops.length)
  have var := var_plain ready within
  have step := plain_opText (var_plain ready (by omega : i + 1 ≤ data.ops.length))
    (data.op (i + 1)) (data.const (i + 1))
  have form := plain_formatLinear base
  have subst : Plain (substText data ch mod i) := by
    refine plain_opText ?_ _ _
    split
    · exact plain_parens (form _)
    · exact form _
  refine clear_define (name_plain ready within) var ?_
  split
  · simpa using ⟨var, step, subst⟩
  · simpa using ⟨var, step, subst, form _⟩

include ready in
theorem firstLines_clear (two : 2 ≤ data.ops.length) : ∀ line ∈ firstLines data ch, line.Clear := by
  have var {i : Nat} (within : i ≤ data.ops.length) := var_plain ready within
  have name {i : Nat} (within : i ≤ data.ops.length) := name_plain ready within
  simp only [firstLines, List.forall_mem_cons]
  refine ⟨firstLine_clear ready, clear_define (name (by omega)) (var (by omega)) ?_,
    clear_define (name two) (var two) ?_, by simp⟩
  · simpa using ⟨var (by omega : 1 ≤ data.ops.length), plain_opText (plain_decimal _) _ _, plain_decimal _⟩
  · simpa using ⟨var two, plain_opText (var (by omega)) _ _, plain_opText (plain_decimal _) _ _,
      plain_decimal _⟩

include ready in
theorem partLines_clear (two : 2 ≤ data.ops.length) : ∀ line ∈ partLines data ch mod, line.Clear := by
  refine List.forall_mem_append.mpr ⟨firstLines_clear ready two, fun line member => ?_⟩
  obtain ⟨i, inside, member⟩ := List.mem_flatMap.mp member
  have within := roundStarts_within inside
  rcases List.mem_cons.mp member with rfl | member
  · exact lineA_clear ready within
  · rw [List.mem_singleton.mp member]
    exact lineB_clear ready within

include ready in
theorem roundSegments_plain : ∀ s ∈ roundSegments data ch mod, s.Plain := by
  intro s member
  obtain ⟨i, inside, rfl⟩ := List.mem_map.mp member
  have within := roundStarts_within inside
  exact ⟨var_plain ready within, var_plain ready (by omega)⟩

include ready in
theorem balanceforward_rendered (nonzero : mod ≠ 0) (two : 2 ≤ data.ops.length) :
    Rendered (balanceforwardText ch data mod) (data.value data.ops.length) := by
  obtain ⟨value, lines, run, rest⟩ := balanceResolve_clear nonzero (roundSegments data ch mod)
    (data.value 2) (varOf ch 2) (roundSegments_plain ready)
  refine ⟨partLines data ch mod ++ lines, ?_,
    List.forall_mem_append.mpr ⟨partLines_clear ready two, rest⟩⟩
  rw [balanceforwardText, balanceParts_eq nonzero ready.sized ready.pool.enough two, ok_bind]
  simp only [balanceEnd, ready.sized.item_value two, pop_some ready two, ok_bind, run,
    ready.sized.last_value]
  rfl

end Hierarchical

end Renderers

end CotCompression
