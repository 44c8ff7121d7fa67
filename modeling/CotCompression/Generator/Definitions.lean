import CotCompression.Generator.Rendered

set_option autoImplicit false

namespace CotCompression

open Program (Prog)
open Text (lit decimal)
open Derivation (Derives)

-- "Define <name> as <var>; ...", to a reader with nothing but the sentence.
def readDefinition (sentence : Text) : Option (Text × Text) :=
  match Text.split (lit " ") sentence with
  | define :: name :: as_ :: var :: _ =>
      if define = lit "Define" ∧ as_ = lit "as" then some (name, var.dropLast) else none
  | _ => none

-- Which variable a solution gives to which name, in the order of its sentences.
def definitions (solution : Text) : List (Text × Text) :=
  (Text.split (lit ". ") solution).filterMap readDefinition

section Reader

variable {name var : Text}

theorem readDefinition_define (nameClear : ' ' ∉ name) (varClear : ' ' ∉ var) (sides : List Text) :
    readDefinition (Line.define name var sides).text = some (name, var) := by
  have blank : lit " " = ' ' :: [] := rfl
  have text : (Line.define name var sides).text = lit "Define" ++ (' ' :: [] ++ (name ++ (' ' :: [] ++
      (lit "as" ++ (' ' :: [] ++ ((var ++ [';']) ++ (' ' :: [] ++
        (lit "so " ++ Text.join (lit " = ") sides)))))))) := by
    simp [Line.define, Line.text, lit]
  have varSemi : ' ' ∉ var ++ [';'] := by simp [varClear]
  rw [readDefinition, blank, text, Text.split_append_of_head _ (by decide), Text.split_append_of_head _ nameClear,
    Text.split_append_of_head _ (by decide), Text.split_append_of_head _ varSemi]
  simp

theorem readDefinition_equation {sides : List Text} {x : Text} (head : sides.head? = some x)
    (length : x.length = 2) (upper : ∀ c ∈ x, c.isUpper = true) :
    readDefinition (Line.equation sides).text = none := by
  -- the second character of "Define" is no capital
  have other : ¬ lit "Define" <+: Text.join (lit " = ") sides := by
    obtain ⟨a, b, rfl⟩ := List.length_eq_two.mp length
    obtain ⟨rest, rfl⟩ := List.head?_eq_some_iff.mp head
    have second : (Text.join (lit " = ") ([a, b] :: rest))[1]? = some b := by
      cases rest with
      | nil => rw [Text.join_singleton]; rfl
      | cons next rest => rw [Text.join_cons_cons]; rfl
    rintro ⟨more, same⟩
    rw [← same] at second
    obtain rfl : 'e' = b := Option.some.inj second
    exact absurd (upper 'e' (by simp)) (by decide)
  rw [readDefinition]
  split
  · next define _ _ _ _ found =>
    rw [if_neg]
    rintro ⟨rfl, _⟩
    exact other (Text.split_head found)
  · rfl

end Reader

def closing (answer : Int) : Text := lit "Answer: " ++ decimal answer ++ lit "."

theorem split_closing (answer : Int) : Text.split (lit ". ") (closing answer) = [closing answer] := by
  have number : '.' ∉ lit "Answer: " ++ decimal answer := by
    have clear : ∀ c ∈ lit "Answer: " ++ decimal answer, c ≠ '.' :=
      List.forall_mem_append.mpr ⟨by decide, Text.forall_decimal (by decide) (by decide) answer⟩
    exact fun member => clear _ member rfl
  refine Text.split_clear fun v filled inside => ?_
  -- the one full stop has no blank behind it
  rcases Text.suffix_append_cases inside with within | ⟨w, rfl, front⟩
  · rintro ⟨more, same⟩
    have long := congrArg List.length same
    have short := within.length_le
    simp only [lit, List.length_append] at long short
    simp at long short
    omega
  · intro starts
    rcases w with _ | ⟨c, w⟩
    · exact absurd starts (by decide)
    · have shape : '.' :: [' '] <+: c :: (w ++ lit ".") := starts
      obtain ⟨is, _⟩ := List.cons_prefix_cons.mp shape
      exact number (front.subset (is ▸ List.mem_cons_self))

theorem split_solutionText {lines : List Line} {answer : Int} (filled : lines ≠ [])
    (clear : ∀ line ∈ lines, '.' ∉ line.text) :
    Text.split (lit ". ") (solutionText lines answer) = lines.map Line.text ++ [closing answer] := by
  have stop : lit ". " = '.' :: [' '] := rfl
  have marker : lit ". Answer: " = lit ". " ++ lit "Answer: " := rfl
  induction lines with
  | nil => exact absurd rfl filled
  | cons line lines ih =>
    have here := clear line (by simp)
    cases lines with
    | nil =>
      have text : solutionText [line] answer = line.text ++ ('.' :: [' '] ++ closing answer) := by
        rw [solutionText, List.map_singleton, Text.join_singleton, marker, stop, closing]
        simp only [List.append_assoc]
      rw [text, stop, Text.split_append_of_head _ here, ← stop, split_closing]
      rfl
    | cons next lines =>
      have text : solutionText (line :: next :: lines) answer =
          line.text ++ ('.' :: [' '] ++ solutionText (next :: lines) answer) := by
        rw [solutionText, List.map_cons, List.map_cons, Text.join_cons_cons, ← stop, solutionText,
          List.map_cons]
        simp only [List.append_assoc]
      rw [text, stop, Text.split_append_of_head _ here, ← stop,
        ih (by simp) fun line member => clear line (List.mem_cons_of_mem _ member)]
      rfl

theorem readDefinition_closing (answer : Int) : readDefinition (closing answer) = none := by
  have blank : lit " " = ' ' :: [] := rfl
  have number : ' ' ∉ decimal answer ++ lit "." := by
    have clear : ∀ c ∈ decimal answer ++ lit ".", c ≠ ' ' :=
      List.forall_mem_append.mpr ⟨Text.forall_decimal (by decide) (by decide) answer, by decide⟩
    exact fun member => clear _ member rfl
  have text : closing answer = lit "Answer:" ++ (' ' :: [] ++ (decimal answer ++ lit ".")) := by
    simp [closing, lit]
  rw [readDefinition, text, blank, Text.split_append_of_head _ (by decide), Text.split_of_not_mem number]

theorem definitions_solutionText {lines : List Line} {answer : Int} (filled : lines ≠ [])
    (clear : ∀ line ∈ lines, '.' ∉ line.text)
    (each : ∀ line ∈ lines, readDefinition line.text = line.introduces) :
    definitions (solutionText lines answer) = lines.filterMap Line.introduces := by
  rw [definitions, split_solutionText filled clear, List.filterMap_append, List.filterMap_map]
  simp only [List.filterMap_cons, readDefinition_closing, List.filterMap_nil, List.append_nil]
  exact List.filterMap_congr each

def ChainData.nodes (data : ChainData) (ch : List Text) : List (Text × Text) :=
  (List.range (data.ops.length + 1)).map fun i => (data.name i, varOf ch i)

def IsVariable (x : Text) : Prop := x.length = 2 ∧ ∀ c ∈ x, c.isUpper = true

structure Tells (lines : List Line) (nodes : List (Text × Text)) : Prop where
  filled : lines ≠ []
  clear : ∀ line ∈ lines, line.Clear
  introduces : (lines.filterMap Line.introduces).Perm nodes
  heads : ∀ line ∈ lines, line.introduces = none → ∃ x, line.sides.head? = some x ∧ IsVariable x

theorem no_dot_of_plain {t : Text} (plain : Plain t) : '.' ∉ t := fun member => by
  have dot := plain '.' member
  exact absurd dot (by decide)

theorem Tells.definitions_perm {lines : List Line} {nodes : List (Text × Text)} (tells : Tells lines nodes)
    (blank : ∀ node ∈ nodes, ' ' ∉ node.1 ∧ ' ' ∉ node.2) (answer : Int) :
    (definitions (solutionText lines answer)).Perm nodes := by
  rw [definitions_solutionText tells.filled fun line member => no_dot_of_plain (tells.clear line member).text]
  · exact tells.introduces
  · rintro ⟨introduces, sides⟩ member
    cases introduces with
    | none =>
      obtain ⟨x, head, length, upper⟩ := tells.heads _ member rfl
      exact readDefinition_equation head length upper
    | some node =>
      have known : node ∈ nodes :=
        tells.introduces.mem_iff.mp (List.mem_filterMap.mpr ⟨_, member, rfl⟩)
      exact readDefinition_define (blank node known).1 (blank node known).2 sides

theorem Tells.of_defining {lines : List Line} {nodes : List (Text × Text)} (filled : lines ≠ [])
    (clear : ∀ line ∈ lines, line.Clear) (introduces : (lines.map Line.introduces).Perm (nodes.map some)) :
    Tells lines nodes where
  filled := filled
  clear := clear
  introduces := by
    have all := introduces.filterMap id
    simpa [List.filterMap_map] using all
  heads line member none := by
    have known := introduces.mem_iff.mp (List.mem_map_of_mem member)
    rw [none] at known
    simp at known

section Modes

variable {ch : List Text} {data : ChainData} {mod : Int}

theorem normalforward_tells (ready : Renderable ch data) :
    ∃ lines, normalforwardText ch data = .ok (solutionText lines (data.value data.ops.length)) ∧
      Tells lines (data.nodes ch) := by
  refine ⟨(List.range (data.ops.length + 1)).map (forwardLine ch data), ?_, .of_defining (by simp) ?_ ?_⟩
  · rw [normalforwardText, normalforwardLines_eq ready.sized ready.pool.enough, ready.sized.last_value]
    rfl
  · intro line member
    obtain ⟨i, inside, rfl⟩ := List.mem_map.mp member
    exact forwardLine_clear ready (by have := List.mem_range.mp inside; omega)
  · refine List.Perm.of_eq ?_
    rw [ChainData.nodes, List.map_map, List.map_map]
    refine List.map_congr_left fun i _ => ?_
    simp only [Function.comp_apply, forwardLine]
    split
    · next first => rw [first]; rfl
    · rfl

theorem rightforward_tells (ready : Renderable ch data) (positive : 1 ≤ mod) (follows : data.Follows mod)
    (one : 1 ≤ data.ops.length) :
    ∃ lines, rightforwardText ch data mod = .ok (solutionText lines (data.value data.ops.length)) ∧
      Tells lines (data.nodes ch) := by
  obtain ⟨first, rest, made, _, _, introduces, _⟩ := rightforwardLines_correct positive follows ready.pool one
  obtain ⟨parts, answer, made', clear⟩ := rightforwardLines_clear ready (by omega : mod ≠ 0) one
  obtain ⟨rfl, rfl⟩ := Prod.mk.inj (Except.ok.inj (made.symm.trans made'))
  refine ⟨first :: rest, ?_, .of_defining (by simp) clear ?_⟩
  · rw [rightforwardText, made, follows.last_value]
    rfl
  · rw [ChainData.nodes, List.map_map]
    exact introduces

theorem flatMap_pairs {α : Type} (g : Nat → α) (start count : Nat) :
    (List.range' (start + 1) count).flatMap
        (fun segIdx => [g (2 * (segIdx - 1) + 1), g (2 * (segIdx - 1) + 2)]) =
      (List.range' (2 * start + 1) (2 * count)).map g := by
  induction count generalizing start with
  | zero => rfl
  | succ count ih =>
    rw [List.range'_succ, List.flatMap_cons, ih (start + 1), Nat.mul_succ 2 count, List.range'_succ,
      List.range'_succ]
    rfl

theorem partLines_introduces {half : Nat} (even : data.ops.length = 2 * (half + 1)) :
    (partLines data ch mod).map Line.introduces = (data.nodes ch).map some := by
  have rest : _ = (List.range' 3 (2 * half)).map (some ∘ fun i => (data.name i, varOf ch i)) :=
    flatMap_pairs _ 1 half
  have count : data.ops.length / 2 - 1 = half := by omega
  have nodes : List.range (data.ops.length + 1) = [0, 1, 2] ++ List.range' 3 (2 * half) := by
    rw [List.range_eq_range', even, show 2 * (half + 1) + 1 = 2 * half + 1 + 1 + 1 by omega,
      List.range'_succ, List.range'_succ, List.range'_succ]
    rfl
  rw [ChainData.nodes, nodes, List.map_map, List.map_append, ← rest, partLines, roundStarts, count,
    List.map_append, List.flatMap_map, List.map_flatMap]
  rfl

theorem heads_of_justified {p : Text → Prop} {known lines : List Line}
    (derived : Derives Justified known lines) (opened : ∀ line ∈ known, ∃ x, line.sides.head? = some x ∧ p x)
    (equations : ∀ line ∈ lines, line.introduces = none) :
    ∀ line ∈ lines, ∃ x, line.sides.head? = some x ∧ p x := by
  induction lines generalizing known with
  | nil => simp
  | cons line lines ih =>
    obtain ⟨justified, rest⟩ := derived
    have here : ∃ x, line.sides.head? = some x ∧ p x := by
      have plain := equations line (by simp)
      cases justified with
      | define name var sides => simp [Line.define] at plain
      | combine endpoint mid pivot right combined shown =>
        obtain ⟨other, member, head, _⟩ := shown
        obtain ⟨x, is, holds⟩ := opened other member
        exact ⟨endpoint, rfl, Option.some.inj (is.symm.trans head) ▸ holds⟩
      | resolve endpoint pivot right literal result shown concluded =>
        obtain ⟨other, member, head, _⟩ := shown
        obtain ⟨x, is, holds⟩ := opened other member
        exact ⟨endpoint, rfl, Option.some.inj (is.symm.trans head) ▸ holds⟩
    have later := ih rest
      (List.forall_mem_append.mpr ⟨opened, by simpa using here⟩)
      fun line member => equations line (List.mem_cons_of_mem _ member)
    exact List.forall_mem_cons.mpr ⟨here, later⟩

theorem partLines_heads (upper : ∀ i ≤ data.ops.length, IsVariable (varOf ch i))
    (two : 2 ≤ data.ops.length) :
    ∀ line ∈ partLines data ch mod, ∃ x, line.sides.head? = some x ∧ IsVariable x := by
  intro line member
  rcases List.mem_append.mp member with member | member
  · simp only [firstLines, List.mem_cons, List.not_mem_nil, or_false] at member
    rcases member with rfl | rfl | rfl <;> exact ⟨_, rfl, upper _ (by omega)⟩
  · obtain ⟨i, start, member⟩ := List.mem_flatMap.mp member
    have within := roundStarts_within start
    simp only [List.mem_cons, List.not_mem_nil, or_false] at member
    rcases member with rfl | rfl
    · refine ⟨varOf ch (i + 1), ?_, upper _ (by omega)⟩
      simp only [lineA, Line.define]
      split <;> rfl
    · exact ⟨_, lineB_last.1, upper _ within⟩

theorem balanceforward_tells (ready : Renderable ch data) (positive : 1 ≤ mod) (follows : data.Follows mod)
    (upper : ∀ i ≤ data.ops.length, IsVariable (varOf ch i)) {half : Nat}
    (even : data.ops.length = 2 * (half + 1)) :
    ∃ lines, balanceforwardText ch data mod = .ok (solutionText lines (data.value data.ops.length)) ∧
      Tells lines (data.nodes ch) := by
  have two : 2 ≤ data.ops.length := by omega
  have nonzero : mod ≠ 0 := by omega
  obtain ⟨resolveLines, run, derived, equations, _⟩ := balanceEnd_correct positive follows ready.pool even two
  obtain ⟨value, lines, run', rest⟩ := balanceResolve_clear nonzero (roundSegments data ch mod)
    (data.value 2) (varOf ch 2) (roundSegments_plain ready)
  have same := run
  rw [balanceEnd, follows.item_value two, pop_some ready two, ok_bind, ok_bind, run'] at same
  obtain ⟨rfl, rfl⟩ := Prod.mk.inj (Except.ok.inj same)
  have opened := @partLines_heads ch data mod upper two
  have heads := heads_of_justified derived opened fun line member => (equations line member).1
  refine ⟨_, balanceforwardText_eq nonzero ready.sized ready.pool.enough two run, ?_, ?_, ?_, ?_⟩
  · simp [partLines, firstLines]
  · exact List.forall_mem_append.mpr ⟨partLines_clear ready two, rest⟩
  · have none : lines.filterMap Line.introduces = [] :=
      List.filterMap_eq_nil_iff.mpr fun line member => (equations line member).1
    have all := congrArg (List.filterMap id) (@partLines_introduces ch data mod half even)
    rw [List.filterMap_append, none, List.append_nil]
    exact List.Perm.of_eq (by simpa [List.filterMap_map] using all)
  · intro line member _
    exact (List.forall_mem_append.mpr ⟨opened, heads⟩ : ∀ line ∈ partLines data ch mod ++ lines, _) line member

end Modes

end CotCompression
