import CotCompression.Generator.Forward
import CotCompression.Generator.Printers

set_option autoImplicit false

namespace CotCompression

open Program (Prog)
open Text (lit decimal)
open Affine (Covers IsCanonical)

-- The linear form of one more operation before `f`.
def Op.before (o : Op) (c : Int) (f : Affine Int) : Affine Int :=
  match o with
  | .add => ⟨f.slope, f.slope * c + f.intercept⟩
  | .sub => ⟨f.slope, -f.slope * c + f.intercept⟩
  | .mul => ⟨f.slope * c, f.intercept⟩

-- One pass of the substitution loop: the line it shows and the form it carries on.
def rightforwardRound (data : ChainData) (varOf : List Text) (targetVar : Text) (mod : Int) (k : Nat)
    (f : Affine Int) : Except PyError (Line × Affine Int) := do
  let varK ← item varOf k
  let prevForm := formatLinear f varK
  let subOp ← item data.ops (k - 1)
  let subC ← item data.constants (k - 1)
  let innerVar ← item varOf (k - 1)
  let innerExpr := opText innerVar subOp subC
  let expanded := formatLinear f (parens innerExpr)
  let next ← canonicalize (subOp.before subC f) mod
  let simplified := formatLinear next innerVar
  let name ← item data.chainNames k
  return (.define name varK [targetVar, prevForm, expanded, simplified], next)

-- for k in range(op - 1, 0, -1), from the k given
def rightforwardLoop (data : ChainData) (varOf : List Text) (targetVar : Text) (mod : Int) :
    Nat → Affine Int → Except PyError (List Line × Affine Int)
  | 0, f => .ok ([], f)
  | k + 1, f => do
    let (line, next) ← rightforwardRound data varOf targetVar mod (k + 1) f
    let (lines, last) ← rightforwardLoop data varOf targetVar mod k next
    return (line :: lines, last)

-- parts[-1] += " = {}" for each side
def extendLast (parts : List Line) (sides : List Text) : Except PyError (List Line) := do
  let last ← lastItem parts
  return parts.dropLast ++ [{ last with sides := last.sides ++ sides }]

def rightforwardStart (data : ChainData) (mod : Int) : Except PyError (Affine Int) := do
  let opSym ← item data.ops (data.ops.length - 1)
  let c ← item data.constants (data.ops.length - 1)
  canonicalize (opSym.form c) mod

-- The lines of rightforward_solution with the `answer` it computes.
def rightforwardLines (ch : List Text) (data : ChainData) (mod : Int) :
    Except PyError (List Line × Int) := do
  let op := data.ops.length
  let varOf ← popMany ch data.values.length
  let targetVar ← item varOf op
  let targetName ← item data.chainNames op
  let curVar ← item varOf (op - 1)
  let form ← rightforwardStart data mod
  let name0 ← item data.chainNames 0
  let var0 ← item varOf 0
  let v0 ← item data.values 0
  let parts := [Line.define name0 var0 [var0, decimal v0],
    Line.define targetName targetVar [targetVar, formatLinear form curVar]]
  let (lines, last) ← rightforwardLoop data varOf targetVar mod (op - 1) form
  let expandedLiteral := formatLinear last (parens (decimal v0))
  let answer ← pyMod (last.apply v0) mod
  let parts ← extendLast (parts ++ lines) [expandedLiteral, decimal answer]
  return (parts, answer)

def rightforwardText (ch : List Text) (data : ChainData) (mod : Int) : Except PyError Text := do
  let (parts, _) ← rightforwardLines ch data mod
  let answer ← lastItem data.values
  return solutionText parts answer

def rightforwardSolution (vars : List Text) (data : ChainData) (mod : Int) : Py Text :=
  if data.ops.length = 0 then normalforwardSolution vars data
  else do
    let ch ← shuffle vars
    .ofExcept (rightforwardText ch data mod)

theorem Op.before_eq (o : Op) (c : Int) (f : Affine Int) : o.before c f = f * o.form c := by
  cases o <;> ext <;> simp [Op.before, Op.form]

section Loop

variable {data : ChainData} {ch : List Text} {mod : Int}

/-- The loop of rightforward_solution starts its pass `k` with (a, b) = f. -/
inductive AtRound (data : ChainData) (ch : List Text) (mod : Int) : Nat → Affine Int → Prop
  | start {f : Affine Int} (first : rightforwardStart data mod = .ok f) :
      AtRound data ch mod (data.ops.length - 1) f
  | next {k : Nat} {f g : Affine Int} {line : Line} (before : AtRound data ch mod (k + 1) f)
      (round : rightforwardRound data ((List.range data.values.length).map (varOf ch))
        (varOf ch data.ops.length) mod (k + 1) f = .ok (line, g)) : AtRound data ch mod k g

def rightLine (data : ChainData) (ch : List Text) (mod : Int) (k : Nat) (f : Affine Int) : Line :=
  .define (data.name (k + 1)) (varOf ch (k + 1))
    [varOf ch data.ops.length, formatLinear f (varOf ch (k + 1)),
      formatLinear f (parens (opText (varOf ch k) (data.op k) (data.const k))),
      formatLinear (Affine.canonical mod ((data.op k).before (data.const k) f)) (varOf ch k)]

theorem rightforwardRound_eq (nonzero : mod ≠ 0) (sized : data.Sized) {k : Nat} (f : Affine Int)
    (within : k + 1 < data.ops.length) :
    rightforwardRound data ((List.range data.values.length).map (varOf ch))
        (varOf ch data.ops.length) mod (k + 1) f =
      .ok (rightLine data ch mod k f, Affine.canonical mod ((data.op k).before (data.const k) f)) := by
  have values := sized.values
  simp only [rightforwardRound, Nat.add_sub_cancel]
  rw [item_popMany (by omega), ChainData.item_op (by omega), sized.item_const (by omega),
    item_popMany (by omega), sized.item_name (by omega)]
  simp only [canonicalize_ok nonzero, ok_bind]
  rfl

theorem rightforwardStart_eq (nonzero : mod ≠ 0) (sized : data.Sized) (one : 1 ≤ data.ops.length) :
    rightforwardStart data mod = .ok (Affine.canonical mod
      ((data.op (data.ops.length - 1)).form (data.const (data.ops.length - 1)))) := by
  rw [rightforwardStart, ChainData.item_op (by omega), sized.item_const (by omega)]
  simp only [canonicalize_ok nonzero, ok_bind]

theorem before_covers (positive : 1 ≤ mod) {k : Nat} {f : Affine Int} (within : k + 1 ≤ data.ops.length)
    (covers : Covers mod (data.forms (k + 1) data.ops.length) f) :
    Covers mod (data.forms k data.ops.length)
      (Affine.canonical mod ((data.op k).before (data.const k) f)) := by
  have longer := covers.prepend_step (by omega) ((data.op k).form (data.const k))
  rw [Op.before_eq, ChainData.forms_append (Nat.le_succ k) within, ChainData.forms_succ]
  exact longer

theorem AtRound.covers (positive : 1 ≤ mod) (sized : data.Sized) (one : 1 ≤ data.ops.length) {k : Nat}
    {f : Affine Int} (atRound : AtRound data ch mod k f) :
    k + 1 ≤ data.ops.length ∧ Covers mod (data.forms k data.ops.length) f := by
  induction atRound with
  | @start f first =>
    rw [rightforwardStart_eq (by omega) sized one] at first
    obtain rfl := Except.ok.inj first
    have single := Covers.single (by omega : 0 < mod)
      ((data.op (data.ops.length - 1)).form (data.const (data.ops.length - 1)))
    rw [← ChainData.forms_succ, Nat.sub_add_cancel one] at single
    exact ⟨by omega, single⟩
  | @next k f g line before round ih =>
    obtain ⟨within, covers⟩ := ih
    rw [rightforwardRound_eq (by omega) sized f (by omega)] at round
    obtain ⟨-, rfl⟩ := Prod.mk.inj (Except.ok.inj round)
    exact ⟨by omega, before_covers positive (by omega) covers⟩

variable (positive : 1 ≤ mod) (follows : data.Follows mod) (pool : Pool ch (data.ops.length + 1))

include positive follows pool in
theorem rightLine_shows {k : Nat} {f : Affine Int} (within : k + 1 < data.ops.length)
    (covers : Covers mod (data.forms (k + 1) data.ops.length) f) :
    Shows data ch mod data.ops.length (rightLine data ch mod k f) := by
  have named := pool.varOf_named (by omega : k < data.ops.length + 1)
  have known := chainEnv_varOf follows.toSized pool (by omega : k ≤ data.ops.length)
  have target := denotes_varOf follows pool (le_refl data.ops.length)
  -- the bracket holds the operation that computes node k + 1 from node k
  obtain ⟨inner, inside, next⟩ := denotes_operation_name follows (by omega : k < data.ops.length) named known
  have expanded : Denotes (chainEnv data ch) mod (data.value data.ops.length)
      (formatLinear f (parens (opText (varOf ch k) (data.op k) (data.const k)))) :=
    denotes_formatLinear (.group inside)
      (((Affine.Congr.refl mod f).apply next).trans (follows.covers_value (by omega) le_rfl covers))
  have simplified := denotes_covered follows pool (by omega) le_rfl
    (before_covers positive (by omega) covers)
  simp only [Shows, rightLine, Line.define, List.forall_mem_cons]
  exact ⟨target, denotes_covered follows pool (by omega) le_rfl covers, expanded, simplified, by simp⟩

theorem AtRound.unique (positive : 1 ≤ mod) (sized : data.Sized) (one : 1 ≤ data.ops.length) {k : Nat}
    {f g : Affine Int} (left : AtRound data ch mod k f) (right : AtRound data ch mod k g) : f = g :=
  (left.covers positive sized one).2.unique (right.covers positive sized one).2

include positive follows pool in
theorem rightforwardLoop_correct (one : 1 ≤ data.ops.length) {k : Nat} {f : Affine Int}
    (atRound : AtRound data ch mod k f) :
    ∃ lines last, rightforwardLoop data ((List.range data.values.length).map (varOf ch))
        (varOf ch data.ops.length) mod k f = .ok (lines, last) ∧
      AtRound data ch mod 0 last ∧ (∀ line ∈ lines, Shows data ch mod data.ops.length line) ∧
      (lines.map Line.introduces).Perm
        ((List.range k).map fun i => some (data.name (i + 1), varOf ch (i + 1))) ∧
      ∀ j < k, ∀ g, AtRound data ch mod (j + 1) g → rightLine data ch mod j g ∈ lines := by
  induction k generalizing f with
  | zero => exact ⟨[], f, rfl, atRound, by simp, by simp, by omega⟩
  | succ k ih =>
    obtain ⟨within, covers⟩ := atRound.covers positive follows.toSized one
    have round := @rightforwardRound_eq data ch mod (by omega) follows.toSized k f (by omega)
    obtain ⟨lines, last, run, final, shows, introduces, shown⟩ := ih (atRound.next round)
    refine ⟨rightLine data ch mod k f :: lines, last, ?_, final, ?_, ?_, ?_⟩
    · rw [rightforwardLoop, round]
      simp only [ok_bind, run]
      rfl
    · intro line member
      rcases List.mem_cons.mp member with rfl | member
      · exact rightLine_shows positive follows pool within covers
      · exact shows line member
    · rw [List.range_succ, List.map_append, List.map_cons, List.map_cons, List.map_nil]
      exact (introduces.cons _).trans (List.perm_append_singleton _ _).symm
    · intro j below g at_
      rcases Nat.lt_succ_iff_lt_or_eq.mp below with earlier | rfl
      · exact List.mem_cons_of_mem _ (shown j earlier g at_)
      · rw [at_.unique positive follows.toSized one atRound]
        exact List.mem_cons_self

def Extended (sides : List Text) (line shown : Line) : Prop :=
  shown.introduces = line.introduces ∧ line.sides <+: shown.sides ∧
    ∀ side ∈ shown.sides, side ∈ line.sides ∨ side ∈ sides

theorem extendLast_extended (before : List Line) {parts : List Line} (filled : parts ≠ [])
    (sides : List Text) :
    ∃ extended, extendLast (before ++ parts) sides = .ok (before ++ extended) ∧
      List.Forall₂ (Extended sides) parts extended := by
  obtain ⟨initial, last, rfl⟩ : ∃ initial last, parts = initial ++ [last] :=
    ⟨_, _, (List.dropLast_append_getLast filled).symm⟩
  refine ⟨initial ++ [⟨last.introduces, last.sides ++ sides⟩], ?_, ?_⟩
  · rw [← List.append_assoc, ← List.append_assoc]
    simp [extendLast, lastItem, pure, Except.pure]
  · refine List.rel_append (List.forall₂_same.mpr fun line _ => ?_) (.cons ?_ .nil)
    · exact ⟨rfl, List.prefix_rfl, fun side inside => .inl inside⟩
    · exact ⟨rfl, List.prefix_append _ _, fun side inside => List.mem_append.mp inside⟩

def originLine (data : ChainData) (ch : List Text) : Line :=
  .define (data.name 0) (varOf ch 0) [varOf ch 0, decimal (data.value 0)]

def targetLine (data : ChainData) (ch : List Text) (form : Affine Int) : Line :=
  .define (data.name data.ops.length) (varOf ch data.ops.length)
    [varOf ch data.ops.length, formatLinear form (varOf ch (data.ops.length - 1))]

theorem rightforwardLines_eq (sized : data.Sized) (enough : data.ops.length + 1 ≤ ch.length)
    {form last : Affine Int} {lines : List Line} {answer : Int}
    (started : rightforwardStart data mod = .ok form)
    (run : rightforwardLoop data ((List.range data.values.length).map (varOf ch))
      (varOf ch data.ops.length) mod (data.ops.length - 1) form = .ok (lines, last))
    (made : pyMod (last.apply (data.value 0)) mod = .ok answer) :
    rightforwardLines ch data mod = (do
      let parts ← extendLast ([originLine data ch] ++ (targetLine data ch form :: lines))
        [formatLinear last (parens (decimal (data.value 0))), decimal answer]
      return (parts, answer)) := by
  have values := sized.values
  rw [rightforwardLines, popMany_ok (by omega), sized.item_name le_rfl, started,
    sized.item_name (by omega), sized.item_value (by omega)]
  simp only [ok_bind]
  rw [item_popMany (by omega), item_popMany (by omega), item_popMany (by omega)]
  simp only [ok_bind, run, made]
  rfl

include follows in
theorem ending_shows {last : Affine Int} (covers : Covers mod (data.forms 0 data.ops.length) last) :
    ∀ side ∈ [formatLinear last (parens (decimal (data.value 0))), decimal (data.value data.ops.length)],
      Denotes (chainEnv data ch) mod (data.value data.ops.length) side := by
  have same := follows.covers_value (Nat.zero_le _) le_rfl covers
  have literal : Denotes (chainEnv data ch) mod (data.value data.ops.length)
      (formatLinear last (parens (decimal (data.value 0)))) :=
    denotes_formatLinear (.group (Expression.evaluate_decimal _ _)) same
  simp only [List.forall_mem_cons]
  exact ⟨literal, denotes_decimal rfl, by simp⟩

include positive follows pool in
theorem rightforwardLines_correct (one : 1 ≤ data.ops.length) :
    ∃ first rest, rightforwardLines ch data mod = .ok (first :: rest, data.value data.ops.length) ∧
      Shows data ch mod 0 first ∧ (∀ line ∈ rest, Shows data ch mod data.ops.length line) ∧
      ((first :: rest).map Line.introduces).Perm
        ((List.range (data.ops.length + 1)).map fun i => some (data.name i, varOf ch i)) ∧
      ∀ k f, AtRound data ch mod (k + 1) f → ∃ line ∈ rest,
        line.introduces = (rightLine data ch mod k f).introduces ∧
          (rightLine data ch mod k f).sides <+: line.sides := by
  have sized := follows.toSized
  have started := rightforwardStart_eq (by omega : mod ≠ 0) sized one
  have atStart : AtRound data ch mod (data.ops.length - 1) _ := .start started
  obtain ⟨within, startCovers⟩ := atStart.covers positive sized one
  obtain ⟨lines, last, run, final, shows, introduces, shown⟩ :=
    rightforwardLoop_correct positive follows pool one atStart
  obtain ⟨_, covers⟩ := final.covers positive sized one
  set form := Affine.canonical mod
    ((data.op (data.ops.length - 1)).form (data.const (data.ops.length - 1)))
  obtain ⟨rest, extended, related⟩ := extendLast_extended [originLine data ch]
    (List.cons_ne_nil (targetLine data ch form) lines)
    [formatLinear last (parens (decimal (data.value 0))), decimal (data.value data.ops.length)]
  have allShow : ∀ line ∈ targetLine data ch form :: lines, Shows data ch mod data.ops.length line := by
    refine List.forall_mem_cons.mpr ⟨?_, shows⟩
    simp only [Shows, targetLine, Line.define, List.forall_mem_cons]
    exact ⟨denotes_varOf follows pool le_rfl, denotes_covered follows pool (by omega) le_rfl startCovers,
      by simp⟩
  refine ⟨originLine data ch, rest, ?_, ?_, ?_, ?_, ?_⟩
  · rw [rightforwardLines_eq sized pool.enough started run
      (follows.covers_mod positive (by omega) le_rfl covers), extended]
    rfl
  · simp only [Shows, originLine, Line.define, List.forall_mem_cons]
    exact ⟨denotes_varOf follows pool (by omega), denotes_decimal rfl, by simp⟩
  · intro line member side inside
    obtain ⟨index, within, rfl⟩ := List.getElem_of_mem member
    have known : index < (targetLine data ch form :: lines).length := by rwa [related.length_eq]
    rcases (related.get known within).2.2 side inside with old | new
    · exact allShow _ (List.getElem_mem known) side old
    · exact ending_shows follows covers side new
  · have names : rest.map Line.introduces = (targetLine data ch form :: lines).map Line.introduces := by
      refine (List.forall₂_eq_eq_eq ▸ List.forall₂_map_left_iff.mpr ?_ : _ = _)
      exact List.forall₂_map_right_iff.mpr (related.flip.imp fun _ _ extends_ => extends_.1)
    rw [List.map_cons, names, List.map_cons, List.range_succ_eq_map, List.map_cons, List.map_map]
    refine List.Perm.cons _ ?_
    obtain ⟨before, length⟩ := Nat.exists_eq_add_of_le' one
    have targetIs : (targetLine data ch form).introduces =
        some (data.name (before + 1), varOf ch (before + 1)) := by
      rw [← length]
      rfl
    rw [targetIs, length, List.range_succ, List.map_append]
    rw [length, Nat.add_sub_cancel] at introduces
    exact (introduces.cons _).trans (List.perm_append_singleton _ _).symm
  · intro k f at_
    have below := (at_.covers positive sized one).1
    have member := List.mem_cons_of_mem (targetLine data ch form) (shown k (by omega) f at_)
    obtain ⟨index, known, is⟩ := List.getElem_of_mem member
    have within : index < rest.length := by rwa [← related.length_eq]
    obtain ⟨same, longer, _⟩ := related.get known within
    simp only [List.get_eq_getElem, is] at same longer
    exact ⟨_, List.getElem_mem within, same, longer⟩

-- Backward substitution keeps the last node's value, shows only forms equal to it, defines each
-- node once and computes the answer it prints.
theorem rightforward_sound {vars : List Text} (one : 1 ≤ data.ops.length)
    (pool : Pool vars (data.ops.length + 1)) (positive : 1 ≤ mod) (follows : data.Follows mod) :
    (rightforwardSolution vars data mod).Safe ∧
      ∀ text, (rightforwardSolution vars data mod).Returns text →
        ∃ ch, ch.Perm vars ∧ ∃ first rest answer,
          rightforwardLines ch data mod = .ok (first :: rest, answer) ∧
          text = solutionText (first :: rest) (data.value data.ops.length) ∧
          answer = data.value data.ops.length ∧
          (∀ k f, AtRound data ch mod k f →
            f.apply (data.value k) ≡ data.value data.ops.length [ZMOD mod] ∧ IsCanonical mod f) ∧
          (∀ k f, AtRound data ch mod (k + 1) f → ∃ line next,
            rightforwardRound data ((List.range data.values.length).map (varOf ch))
              (varOf ch data.ops.length) mod (k + 1) f = .ok (line, next) ∧
            Shows data ch mod data.ops.length line ∧
            ∃ shown ∈ rest, shown.introduces = line.introduces ∧ line.sides <+: shown.sides) ∧
          Shows data ch mod 0 first ∧ (∀ line ∈ rest, Shows data ch mod data.ops.length line) ∧
          ((first :: rest).map Line.introduces).Perm
            ((List.range (data.ops.length + 1)).map fun i => some (data.name i, varOf ch i)) := by
  have sized := follows.toSized
  simp only [rightforwardSolution, if_neg (by omega : ¬ data.ops.length = 0)]
  refine shuffled_all fun ch same => ?_
  have pool := pool.perm same
  obtain ⟨first, rest, made, showsFirst, showsRest, introduces, shown⟩ :=
    rightforwardLines_correct positive follows pool one
  have text : rightforwardText ch data mod = .ok (solutionText (first :: rest) (data.value data.ops.length)) := by
    rw [rightforwardText, made, sized.last_value]
    rfl
  refine ⟨_, text, ch, same, first, rest, _, made, rfl, rfl, ?_, ?_, showsFirst, showsRest, introduces⟩
  · intro k f at_
    obtain ⟨within, covers⟩ := at_.covers positive sized one
    exact ⟨follows.covers_value (by omega) le_rfl covers, covers.canonical⟩
  · intro k f at_
    obtain ⟨within, covers⟩ := at_.covers positive sized one
    exact ⟨_, _, rightforwardRound_eq (by omega) sized f (by omega),
      rightLine_shows positive follows pool (by omega) covers, shown k f at_⟩

theorem rightforward_sound_pair : ∃ ch first rest, ch.Perm variableNames ∧
    (rightforwardSolution variableNames pairChain 5).Returns (solutionText (first :: rest) 1) ∧
      ∀ line ∈ rest, Shows pairChain ch 5 2 line := by
  obtain ⟨safe, sound⟩ := rightforward_sound (by decide : 1 ≤ pairChain.ops.length)
    (variablePool (by decide)) (by decide : (1 : Int) ≤ 5) pairChain_follows
  obtain ⟨text, returned⟩ := exists_returns safe
  obtain ⟨ch, same, first, rest, _, _, rfl, _, _, _, _, shows, _⟩ := sound text returned
  exact ⟨ch, first, rest, same, returned, shows⟩

end Loop

end CotCompression
