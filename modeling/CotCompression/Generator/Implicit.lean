import Mathlib.Data.List.Sort
import CotCompression.Generator.Definitions
import CotCompression.Generator.Nested
import CotCompression.Generator.Problem

set_option autoImplicit false

namespace CotCompression

open Program (Prog)
open Text (lit decimal)

-- What a sentence says of a node, to a reader who takes the name in front ("Define <name> ..." or
-- "<name> = ...") and the last word.
def readStatement (sentence : Text) : Option (Text × Text) :=
  match Text.split (lit " ") sentence with
  | first :: second :: rest =>
      if first = lit "Answer:" then none
      else some (if first = lit "Define" then second else first, (second :: rest).getLastD [])
  | _ => none

-- The names a solution lists with their values, in the order of its sentences.
def statements (solution : Text) : List (Text × Text) :=
  (Text.split (lit ". ") solution).filterMap readStatement

-- The implicit solution lists, once each, what the composed one defines, and a coarser nesting
-- lists a part of what a finer one does.
def FormulasRemoved (data : ChainData) (mod maxNest : Int) : Prop :=
  ∃ listed, implicitSolution data maxNest = .ok listed ∧
    (composedforwardSolution variableNames data mod maxNest).Safe ∧
    (∀ composed, (composedforwardSolution variableNames data mod maxNest).Returns composed →
      statements listed = statements composed) ∧
    ((statements listed).map Prod.fst).Nodup ∧
    ∀ nest, 1 ≤ nest → nest ∣ maxNest →
      ∃ finer, implicitSolution data nest = .ok finer ∧ (statements listed).Sublist (statements finer)

section Reader

variable {name var last : Text}

theorem join_concat (sep last : Text) {parts : List Text} (filled : parts ≠ []) :
    Text.join sep (parts ++ [last]) = Text.join sep parts ++ sep ++ last := by
  induction parts with
  | nil => exact absurd rfl filled
  | cons part rest ih =>
    cases rest with
    | nil => simp
    | cons next rest =>
      rw [List.cons_append, List.cons_append, Text.join_cons_cons, ← List.cons_append, ih (by simp),
        Text.join_cons_cons]
      simp only [List.append_assoc]

theorem readStatement_define (sides : List Text) (nameClear : ' ' ∉ name) (lastClear : ' ' ∉ last)
    (filled : sides ≠ []) :
    readStatement (Line.define name var (sides ++ [last])).text = some (name, last) := by
  have text : (Line.define name var (sides ++ [last])).text = lit "Define" ++ ' ' :: (name ++ ' ' ::
      ((lit "as " ++ var ++ lit "; so " ++ Text.join (lit " = ") sides ++ lit " =") ++ ' ' :: last)) := by
    simp [Line.define, Line.text, join_concat _ _ filled, lit]
  have blank : lit " " = [' '] := rfl
  rw [readStatement, text, blank, Text.split_char, Text.split_char, Text.split_char,
    Text.split_of_not_mem (by decide : ' ' ∉ lit "Define"), Text.split_of_not_mem nameClear,
    Text.split_of_not_mem lastClear]
  have other : lit "Define" ≠ lit "Answer:" := by decide
  have ending (words : List Text) : (name :: (words ++ [last])).getLastD [] = last := by
    rw [← List.cons_append, List.getLastD_eq_getLast?, List.getLast?_concat, Option.getD_some]
  simp only [List.cons_append, List.nil_append, other, if_false, if_true, ending]

theorem readStatement_equation (nameClear : ' ' ∉ name) (lastClear : ' ' ∉ last)
    (lower : name ≠ lit "Define" ∧ name ≠ lit "Answer:") :
    readStatement (Line.equation [name, last]).text = some (name, last) := by
  have text : (Line.equation [name, last]).text = name ++ ' ' :: (lit "=" ++ ' ' :: last) := by
    simp [Line.equation, Line.text, lit]
  have blank : lit " " = [' '] := rfl
  rw [readStatement, text, blank, Text.split_char, Text.split_char, Text.split_of_not_mem nameClear,
    Text.split_of_not_mem (by decide : ' ' ∉ lit "="), Text.split_of_not_mem lastClear]
  simp [lower.1, lower.2]

theorem readStatement_closing (answer : Int) : readStatement (closing answer) = none := by
  have number : ' ' ∉ decimal answer ++ lit "." := by
    have clear : ∀ c ∈ decimal answer ++ lit ".", c ≠ ' ' :=
      List.forall_mem_append.mpr ⟨Text.forall_decimal (by decide) (by decide) answer, by decide⟩
    exact fun member => clear _ member rfl
  have text : closing answer = lit "Answer:" ++ ' ' :: (decimal answer ++ lit ".") := by
    simp [closing, lit]
  have blank : lit " " = [' '] := rfl
  rw [readStatement, text, blank, Text.split_char, Text.split_of_not_mem (by decide : ' ' ∉ lit "Answer:"),
    Text.split_of_not_mem number]
  simp

theorem statements_solutionText {α : Type} {xs : List α} {line : α → Line} {said : α → Text × Text} {answer : Int}
    (filled : xs ≠ []) (clear : ∀ x ∈ xs, (line x).Clear)
    (each : ∀ x ∈ xs, readStatement (line x).text = some (said x)) :
    statements (solutionText (xs.map line) answer) = xs.map said := by
  have noStop : ∀ shown ∈ xs.map line, '.' ∉ shown.text := by
    simpa using fun x member => no_dot_of_plain (clear x member).text
  rw [statements, split_solutionText (by simpa using filled) noStop, List.filterMap_append, List.map_map,
    List.filterMap_map]
  simp only [List.filterMap_cons, readStatement_closing, List.filterMap_nil, List.append_nil]
  rw [← List.filterMap_eq_map]
  exact List.filterMap_congr each

end Reader

section Nodes

variable {ch : List Text} {data : ChainData} {mod : Int} {nest : Nat}

def statementOf (data : ChainData) (i : Nat) : Text × Text := (data.name i, decimal (data.value i))

def toldNodes (op nest : Nat) : List Nat := (List.range ((op - 1) / nest + 2)).map (nodeAt op nest)

theorem toldNodes_breaks {op : Nat} (positive : 1 ≤ nest) (some : 1 ≤ op) : Breaks op (toldNodes op nest) := by
  obtain ⟨points, made, breaks⟩ := breakpoints_breaks (by omega : (nest : Int) ≠ 0) some
  rw [breakpoints_nodeAt positive some] at made
  rwa [← Except.ok.inj made] at breaks

theorem mem_toldNodes {op p : Nat} (positive : 1 ≤ nest) (some : 1 ≤ op) :
    p ∈ toldNodes op nest ↔ p = op ∨ (p < op ∧ nest ∣ p) := by
  rw [toldNodes, List.mem_map]
  constructor
  · rintro ⟨g, _, rfl⟩
    by_cases early : nest * g < op
    · rw [nodeAt, Nat.min_eq_left early.le]
      exact .inr ⟨early, nest.dvd_mul_right g⟩
    · exact .inl (Nat.min_eq_right (by omega))
  · rintro (rfl | ⟨early, g, rfl⟩)
    · exact ⟨_, List.mem_range.mpr (Nat.lt_succ_self _), nodeAt_last positive some⟩
    · have few : g ≤ (op - 1) / nest := (Nat.le_div_iff_mul_le positive).mpr (by rw [Nat.mul_comm]; omega)
      exact ⟨g, List.mem_range.mpr (by omega), Nat.min_eq_left early.le⟩

theorem toldNodes_sublist {op fine coarse : Nat} (positive : 1 ≤ fine) (some : 1 ≤ op) (larger : 1 ≤ coarse)
    (divides : fine ∣ coarse) : (toldNodes op coarse).Sublist (toldNodes op fine) := by
  have increasing := (toldNodes_breaks larger some).increasing
  refine List.sublist_of_subperm_of_pairwise (List.subperm_of_subset ?_ ?_) increasing
    (toldNodes_breaks positive some).increasing
  · exact increasing.imp fun less => less.ne
  · intro p member
    rw [mem_toldNodes larger some] at member
    rw [mem_toldNodes positive some]
    exact member.imp_right fun ⟨early, multiple⟩ => ⟨early, divides.trans multiple⟩

theorem implicitBreakpoints_eq {op : Nat} (positive : 1 ≤ nest) (some : 1 ≤ op) :
    implicitBreakpoints op nest = .ok (toldNodes op nest) := by
  rw [implicitBreakpoints]
  split
  · next whole =>
    have one : (op - 1) / nest = 0 := Nat.div_eq_of_lt (by omega)
    have last : nodeAt op nest ((op - 1) / nest + 1) = op := nodeAt_last positive some
    rw [one] at last
    rw [toldNodes, one]
    simp [List.range_succ, nodeAt_zero, last]
  · exact breakpoints_nodeAt positive some

def implicitLine (data : ChainData) (i : Nat) : Line := .equation [data.name i, decimal (data.value i)]

theorem implicitRound_eq (sized : data.Sized) {points : List Nat} {g p : Nat} (here : points[g]? = some p)
    (first : g = 0 → p = 0) (within : p ≤ data.ops.length) :
    implicitRound data points g = .ok (implicitLine data p) := by
  rw [implicitRound, item_of_getElem? here, ok_bind]
  split
  · next zero =>
    rw [first zero, sized.item_name (Nat.zero_le _), sized.item_value (Nat.zero_le _)]
    rfl
  · rw [sized.item_name within, sized.item_value within]
    rfl

theorem implicitSolution_eq (sized : data.Sized) {maxNest : Int} {points : List Nat}
    (made : implicitBreakpoints data.ops.length maxNest = .ok points) (first : points[0]? = some 0)
    (within : ∀ p ∈ points, p ≤ data.ops.length) :
    implicitSolution data maxNest =
      .ok (solutionText (points.map (implicitLine data)) (data.value data.ops.length)) := by
  have lines : (List.range points.length).mapM (implicitRound data points) =
      .ok ((List.range points.length).map fun g => implicitLine data (points.getD g 0)) := by
    refine mapM_ok fun g member => ?_
    have inside := List.mem_range.mp member
    have here : points[g]? = some (points.getD g 0) := by
      rw [List.getD_eq_getElem?_getD, List.getElem?_eq_getElem inside, Option.getD_some]
    refine implicitRound_eq sized here ?_ (within _ (List.mem_of_getElem? here))
    rintro rfl
    exact Option.some.inj (here.symm.trans first)
  have each : (List.range points.length).map (fun g => implicitLine data (points.getD g 0)) =
      points.map (implicitLine data) := by
    refine List.ext_getElem (by simp) fun g left right => ?_
    have inside : g < points.length := by simpa using left
    simp [inside]
  rw [implicitSolution, made, ok_bind, lines, each, sized.last_value]
  rfl

end Nodes

section Generated

variable {op mod : Int} {data : ChainData} {ch : List Text} {nest : Nat}

theorem decimal_blank (z : Int) : ' ' ∉ decimal z := fun member => by
  have clear : ∀ c ∈ decimal z, c ≠ ' ' := Text.forall_decimal (by decide) (by decide) z
  exact clear _ member rfl

theorem Generated.name_clear (generated : Generated op mod data) {i : Nat} (within : i ≤ data.ops.length) :
    ' ' ∉ data.name i ∧ data.name i ≠ lit "Define" ∧ data.name i ≠ lit "Answer:" := by
  have lower := generated.name_lower within
  refine ⟨fun blank => absurd (lower _ blank) (by decide), fun same => ?_, fun same => ?_⟩
  · exact absurd (lower 'D' (by rw [same]; decide)) (by decide)
  · exact absurd (lower 'A' (by rw [same]; decide)) (by decide)

theorem Generated.statement_implicit (generated : Generated op mod data) {i : Nat}
    (within : i ≤ data.ops.length) : readStatement (implicitLine data i).text = some (statementOf data i) := by
  obtain ⟨clear, notDefine, notAnswer⟩ := generated.name_clear within
  exact readStatement_equation clear (decimal_blank _) ⟨notDefine, notAnswer⟩

theorem Generated.statement_forward (generated : Generated op mod data) {i : Nat}
    (within : i ≤ data.ops.length) : readStatement (forwardLine ch data i).text = some (statementOf data i) := by
  obtain ⟨clear, _, _⟩ := generated.name_clear within
  rw [forwardLine]
  split
  · next first =>
    subst first
    exact readStatement_define [_] clear (decimal_blank _) (by simp)
  · exact readStatement_define [_, _, _] clear (decimal_blank _) (by simp)

theorem Generated.statement_composed (generated : Generated op mod data) {g p q : Nat}
    (within : q ≤ data.ops.length) :
    readStatement (composedLine ch data g p q (data.value q)).text = some (statementOf data q) := by
  obtain ⟨clear, _, _⟩ := generated.name_clear within
  exact readStatement_define [_, _, _] clear (decimal_blank _) (by simp)

theorem Generated.statements_implicit (generated : Generated op mod data) {points : List Nat}
    (filled : points ≠ []) (within : ∀ p ∈ points, p ≤ data.ops.length) (answer : Int) :
    statements (solutionText (points.map (implicitLine data)) answer) = points.map (statementOf data) := by
  have ready := generated.renderable (List.Perm.refl variableNames)
  refine statements_solutionText filled (fun p member => clear_equation ?_)
    fun p member => generated.statement_implicit (within p member)
  simpa using ⟨name_plain ready (within p member), plain_decimal _⟩

theorem Generated.statements_forward (generated : Generated op mod data) (perm : ch.Perm variableNames) :
    statements (solutionText ((List.range (data.ops.length + 1)).map (forwardLine ch data))
      (data.value data.ops.length)) = (List.range (data.ops.length + 1)).map (statementOf data) := by
  have ready := generated.renderable perm
  have within {i : Nat} (member : i ∈ List.range (data.ops.length + 1)) : i ≤ data.ops.length := by
    have := List.mem_range.mp member
    omega
  exact statements_solutionText (by simp) (fun i member => forwardLine_clear ready (within member))
    fun i member => generated.statement_forward (within member)

theorem Generated.statements_composed (generated : Generated op mod data) (perm : ch.Perm variableNames)
    (some : 1 ≤ data.ops.length) :
    statements (solutionText ((List.range ((data.ops.length - 1) / nest + 2)).map (composedLineAt ch data nest))
      (data.value data.ops.length)) = (toldNodes data.ops.length nest).map (statementOf data) := by
  have ready := generated.renderable perm
  have few : (data.ops.length - 1) / nest ≤ data.ops.length - 1 := Nat.div_le_self _ _
  rw [toldNodes, List.map_map]
  refine statements_solutionText (by simp) (fun g member => ?_) fun g member => ?_
  · have within := List.mem_range.mp member
    cases g with
    | zero => exact forwardLine_clear ready (Nat.zero_le _)
    | succ g => exact composedLine_clear ready _ (by omega) (nodeAt_le _ _ _)
  · cases g with
    | zero =>
      rw [composedLineAt, Function.comp_apply, nodeAt_zero]
      exact generated.statement_forward (Nat.zero_le _)
    | succ g => exact generated.statement_composed (nodeAt_le _ _ _)

theorem Generated.implicit_told (generated : Generated op mod data) (positive : 1 ≤ nest)
    (some : 1 ≤ data.ops.length) :
    ∃ listed, implicitSolution data nest = .ok listed ∧
      statements listed = (toldNodes data.ops.length nest).map (statementOf data) := by
  have breaks := toldNodes_breaks positive some
  have made := implicitBreakpoints_eq positive some
  refine ⟨_, implicitSolution_eq generated.sized made breaks.zero breaks.within, ?_⟩
  refine generated.statements_implicit (fun none => ?_) breaks.within _
  have first := breaks.first
  rw [none] at first
  cases first

theorem Generated.composed_told (generated : Generated op mod data) (modulus : 1 ≤ mod) (positive : 1 ≤ nest)
    (some : 1 ≤ data.ops.length) :
    (composedforwardSolution variableNames data mod nest).Safe ∧
      ∀ composed, (composedforwardSolution variableNames data mod nest).Returns composed →
        statements composed = (toldNodes data.ops.length nest).map (statementOf data) := by
  have computed := (generated.follows modulus).computed
  have few : (data.ops.length - 1) / nest ≤ data.ops.length - 1 := Nat.div_le_self _ _
  rw [composedforwardSolution]
  split
  · -- a single operation is told by the explicit solution
    next short =>
    have one : data.ops.length = 1 := by omega
    have told : toldNodes data.ops.length nest = List.range (data.ops.length + 1) := by
      rw [toldNodes, one]
      simp [List.range_succ, nodeAt, positive]
    have normal (ch : List Text) (perm : ch.Perm variableNames) :=
      normalforwardText_ok generated.sized (generated.pool.perm perm).enough
    exact shuffled_all fun ch perm => ⟨_, normal ch perm, by rw [generated.statements_forward perm, told]⟩
  · have grouped (ch : List Text) (perm : ch.Perm variableNames) : composedforwardText ch data mod nest = _ :=
      composedforwardText_eq computed modulus positive some
        (by have := (generated.pool.perm perm).enough; omega)
    exact shuffled_all fun ch perm => ⟨_, grouped ch perm, generated.statements_composed perm some⟩

theorem Generated.statements_nodup (generated : Generated op mod data) {points : List Nat} (distinct : points.Nodup)
    (within : ∀ p ∈ points, p ≤ data.ops.length) : ((points.map (statementOf data)).map Prod.fst).Nodup := by
  rw [List.map_map]
  have inside {p : Nat} (member : p ∈ points) : p < data.chainNames.length := by
    have := within p member
    rw [generated.sized.names]
    omega
  refine distinct.map_on fun p left q right same => ?_
  simp only [Function.comp_apply, statementOf, ChainData.name, List.getD_eq_getElem?_getD,
    List.getElem?_eq_getElem (inside left), List.getElem?_eq_getElem (inside right), Option.getD_some] at same
  exact generated.names_nodup.getElem_inj_iff.mp same

end Generated

section Removed

variable {op numberRange mod maxNest : Int} {data : ChainData}

-- Without an operation the first branch lists the only node a second time.
theorem not_formulasRemoved (generated : Generated op mod data) (none : data.ops.length = 0)
    (positive : 1 ≤ maxNest) : ¬ FormulasRemoved data mod maxNest := by
  rintro ⟨listed, made, _, _, distinct, _⟩
  have points : implicitBreakpoints data.ops.length maxNest = .ok [0, 0] := by
    rw [implicitBreakpoints, if_pos (by omega), none]
  rw [implicitSolution_eq generated.sized points rfl (by simp)] at made
  rw [← Except.ok.inj made, generated.statements_implicit (by simp) (by simp)] at distinct
  simp at distinct

-- The implicit solution is the composed one with the formulas removed exactly for chains with an
-- operation.
theorem formulasRemoved_iff (drawn : (generateChain op numberRange mod).Returns data) (nests : 1 ≤ maxNest)
    (modulus : 1 ≤ mod) : FormulasRemoved data mod maxNest ↔ 1 ≤ op := by
  have generated := generateChain_returns drawn
  have length := generated.length
  constructor
  · intro removed
    by_contra short
    exact not_formulasRemoved generated (by have := generated.op_nonneg; omega) nests removed
  · intro one
    have some : 1 ≤ data.ops.length := by omega
    obtain ⟨coarse, rfl⟩ := Int.eq_ofNat_of_zero_le (by omega : 0 ≤ maxNest)
    have larger : 1 ≤ coarse := by omega
    have breaks := toldNodes_breaks larger some
    obtain ⟨listed, made, told⟩ := generated.implicit_told larger some
    obtain ⟨safe, composed⟩ := generated.composed_told modulus larger some
    refine ⟨listed, made, safe, fun text returned => told.trans (composed text returned).symm, ?_, ?_⟩
    · rw [told]
      exact generated.statements_nodup (breaks.increasing.imp fun less => less.ne) breaks.within
    · intro nest positive divides
      obtain ⟨fine, rfl⟩ := Int.eq_ofNat_of_zero_le (by omega : 0 ≤ nest)
      obtain ⟨finer, made', told'⟩ := generated.implicit_told (by omega : 1 ≤ fine) some
      refine ⟨finer, made', ?_⟩
      rw [told, told']
      exact (toldNodes_sublist (by omega) some larger (Int.natCast_dvd_natCast.mp divides)).map _

theorem formulasRemoved_iff_pair : ∃ data, (generateChain 2 5 5).Returns data ∧ FormulasRemoved data 5 2 := by
  obtain ⟨data, drawn⟩ := exists_returns (generateChain_safe (by decide : (0 : Int) ≤ 2) (by decide)
    (by decide : (3 : Int) ≤ 5) (by decide : (1 : Int) ≤ 5))
  exact ⟨data, drawn, (formulasRemoved_iff drawn (by decide : (1 : Int) ≤ 2) (by decide)).mpr (by decide)⟩

-- A chain of one node: "cats = 1. cats = 1. Answer: 1.", where the composed solution has one line.
theorem implicit_twice : ∃ data, (generateChain 0 5 23).Returns data ∧ ¬ FormulasRemoved data 23 2 := by
  obtain ⟨data, drawn⟩ := exists_returns (generateChain_safe (by decide : (0 : Int) ≤ 0) (by decide)
    (by decide : (3 : Int) ≤ 5) (by decide : (1 : Int) ≤ 23))
  have generated := generateChain_returns drawn
  exact ⟨data, drawn, not_formulasRemoved generated (by have := generated.length; omega) (by decide)⟩

end Removed

end CotCompression
