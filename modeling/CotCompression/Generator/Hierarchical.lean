import CotCompression.Generator.Printers
import CotCompression.Shared.Derivation

set_option autoImplicit false

namespace CotCompression

open Program (Prog)
open Text (lit decimal)
open Expression (Tree IsName)
open Affine (Covers)
open Derivation (Derives)

-- (endpoint_var, base_var, a, b)
structure Segment where
  endpointVar : Text
  baseVar : Text
  form : Affine Int
  deriving DecidableEq

-- The linear form of one more operation after `f`.
def Op.after (o : Op) (c : Int) (f : Affine Int) : Affine Int :=
  match o with
  | .add => ⟨f.slope, f.intercept + c⟩
  | .sub => ⟨f.slope, f.intercept - c⟩
  | .mul => ⟨f.slope * c, f.intercept * c⟩

-- _balance_chain_right; an empty list of segments would split into itself for ever.
def balanceChainRight (mod : Int) (segments : List Segment) (pivotVar : Text) :
    Except PyError (Affine Int × List Line) :=
  match segments with
  | [] => .error .recursionError
  | [segment] => .ok (segment.form, [])
  | first :: second :: rest => do
    let mid := (rest.length + 2) / 2
    let left := (first :: second :: rest).take mid
    let right := (first :: second :: rest).drop mid
    let (leftForm, leftLines) ← balanceChainRight mod left pivotVar
    let midVar := (← lastItem left).endpointVar
    let (rightForm, rightLines) ← balanceChainRight mod right midVar
    let newForm ← canonicalize (rightForm * leftForm) mod
    let endpointVar := (← lastItem (first :: second :: rest)).endpointVar
    let rightInMid := formatLinear rightForm midVar
    let combinedInPivot := formatLinear newForm pivotVar
    let combineLine := Line.equation [endpointVar, rightInMid, combinedInPivot]
    return (newForm, leftLines ++ rightLines ++ [combineLine])
termination_by segments.length
decreasing_by all_goals simp only [List.length_take, List.length_drop, List.length_cons]; omega

-- _balance_resolve
def balanceResolve (mod : Int) (segments : List Segment) (baseVal : Int) (baseVar : Text) :
    Except PyError (Int × List Line) :=
  match segments with
  | [] => .ok (baseVal, [])
  | [segment] => do
    let formText := formatLinear segment.form segment.baseVar
    let substText := formatLinearWithLiteral segment.form baseVal
    let result ← pyMod (segment.form.apply baseVal) mod
    return (result, [.equation [segment.endpointVar, formText, substText, decimal result]])
  | first :: second :: rest => do
    let mid := (rest.length + 2) / 2
    let left := (first :: second :: rest).take mid
    let right := (first :: second :: rest).drop mid
    let (leftVal, leftLines) ← balanceResolve mod left baseVal baseVar
    let pivotVar := (← lastItem left).endpointVar
    let (rightForm, rightLines) ← balanceChainRight mod right pivotVar
    let rightFormText := formatLinear rightForm pivotVar
    let substText := formatLinearWithLiteral rightForm leftVal
    let finalVal ← pyMod (rightForm.apply leftVal) mod
    let endpointVar := (← lastItem right).endpointVar
    let combineLine := Line.equation [endpointVar, rightFormText, substText, decimal finalVal]
    return (finalVal, leftLines ++ rightLines ++ [combineLine])
termination_by segments.length
decreasing_by simp only [List.length_take, List.length_cons]; omega

-- One pass of the loop over seg_idx: the two lines it shows and the segment it adds.
def segmentRound (data : ChainData) (varOf : List Text) (mod : Int) (segIdx : Nat) :
    Except PyError (List Line × Segment) := do
  let j1 := 2 * (segIdx - 1) + 1
  let j2 := 2 * (segIdx - 1) + 2
  let baseVar ← item varOf (2 * (segIdx - 1))
  let opA ← item data.ops (j1 - 1)
  let cA ← item data.constants (j1 - 1)
  let formA ← canonicalize (opA.form cA) mod
  let nameA ← item data.chainNames j1
  let varA ← item varOf j1
  let lineA :=
    if opA = .mul then
      Line.define nameA varA [varA, opText baseVar opA cA, formatLinear formA baseVar]
    else Line.define nameA varA [varA, opText baseVar opA cA]
  let opB ← item data.ops (j2 - 1)
  let cB ← item data.constants (j2 - 1)
  let formB ← canonicalize (opB.after cB formA) mod
  let stepAText := formatLinear formA baseVar
  let substText :=
    if formA.intercept ≠ 0 then opText (parens stepAText) opB cB else opText stepAText opB cB
  let stepBText := formatLinear formB baseVar
  let nameB ← item data.chainNames j2
  let varB ← item varOf j2
  let lineB :=
    if substText = stepBText then Line.define nameB varB [varB, opText varA opB cB, substText]
    else Line.define nameB varB [varB, opText varA opB cB, substText, stepBText]
  return ([lineA, lineB], ⟨varB, baseVar, formB⟩)

-- The Define lines of balanceforward_solution, with the segments left to resolve.
def balanceParts (ch : List Text) (data : ChainData) (mod : Int) :
    Except PyError (List Line × List Segment) := do
  let op := data.ops.length
  let varOf ← popMany ch (op + 1)
  let name0 ← item data.chainNames 0
  let var0 ← item varOf 0
  let v0Val ← item data.values 0
  let op1 ← item data.ops 0
  let c1 ← item data.constants 0
  let v1Val ← item data.values 1
  let name1 ← item data.chainNames 1
  let var1 ← item varOf 1
  let op2 ← item data.ops 1
  let c2 ← item data.constants 1
  let v2Val ← item data.values 2
  let name2 ← item data.chainNames 2
  let var2 ← item varOf 2
  let rounds ← (List.range' 2 (op / 2 - 1)).mapM (segmentRound data varOf mod)
  return ([Line.define name0 var0 [var0, decimal v0Val],
      Line.define name1 var1 [var1, opText (decimal v0Val) op1 c1, decimal v1Val],
      Line.define name2 var2
        [var2, opText var1 op2 c2, opText (decimal v1Val) op2 c2, decimal v2Val]] ++
      rounds.flatMap Prod.fst, rounds.map Prod.snd)

-- The call of _balance_resolve that ends balanceforward_solution.
def balanceEnd (ch : List Text) (data : ChainData) (mod : Int) (segments : List Segment) :
    Except PyError (Int × List Line) := do
  let concreteVal ← item data.values 2
  let concreteVar ← pop ch 2
  balanceResolve mod segments concreteVal concreteVar

def balanceforwardText (ch : List Text) (data : ChainData) (mod : Int) : Except PyError Text := do
  let (parts, segments) ← balanceParts ch data mod
  let (_, resolveLines) ← balanceEnd ch data mod segments
  let answer ← lastItem data.values
  return solutionText (parts ++ resolveLines) answer

def balanceforwardSolution (vars : List Text) (data : ChainData) (mod : Int) : Py Text :=
  let op := data.ops.length
  if op < 2 ∨ op &&& (op - 1) ≠ 0 then .raise .valueError
  else do
    let ch ← shuffle vars
    .ofExcept (balanceforwardText ch data mod)

theorem Op.after_eq (o : Op) (c : Int) (f : Affine Int) : o.after c f = o.form c * f := by
  cases o <;> ext <;> simp [Op.after, Op.form] <;> ring

def Shown (known : List Line) (var t : Text) : Prop :=
  ∃ line ∈ known, line.sides.head? = some var ∧ line.sides.getLast? = some t

/-- What a line may rest on: a merge reuses the form last shown for its endpoint, and the number
it substitutes was concluded for the pivot. -/
inductive Justified (known : List Line) : Line → Prop
  | define (name var : Text) (sides : List Text) : Justified known (.define name var sides)
  | combine (endpoint mid pivot : Text) (right combined : Affine Int)
      (shown : Shown known endpoint (formatLinear right mid)) :
      Justified known (.equation [endpoint, formatLinear right mid, formatLinear combined pivot])
  | resolve (endpoint pivot : Text) (right : Affine Int) (literal result : Int)
      (shown : Shown known endpoint (formatLinear right pivot))
      (concluded : Shown known pivot (decimal literal)) :
      Justified known (.equation [endpoint, formatLinear right pivot,
        formatLinearWithLiteral right literal, decimal result])

theorem Shown.mono {known more : List Line} {var t : Text} (subset : known ⊆ more)
    (shown : Shown known var t) : Shown more var t := by
  obtain ⟨line, member, head, last⟩ := shown
  exact ⟨line, subset member, head, last⟩

theorem Shown.of_last {known : List Line} {var t : Text} {sides : List Text}
    (head : sides.head? = some var) (last : sides.getLast? = some t) :
    Shown (known ++ [.equation sides]) var t :=
  ⟨.equation sides, by simp, head, last⟩

-- Induction through the two halves both recursions split their segments into.
theorem halves_induction {α : Type} {motive : List α → Prop} (nil : motive [])
    (single : ∀ x, motive [x])
    (halves : ∀ left right : List α, left.length = (left ++ right).length / 2 → left ≠ [] → right ≠ [] →
      motive left → motive right → motive (left ++ right)) (xs : List α) : motive xs := by
  induction length : xs.length using Nat.strong_induction_on generalizing xs with
  | _ length ih =>
  subst length
  match xs with
  | [] => exact nil
  | [x] => exact single x
  | first :: second :: rest =>
    generalize whole : first :: second :: rest = xs at ih ⊢
    have long : 2 ≤ xs.length := by simp [← whole]
    have leftLength : (xs.take (xs.length / 2)).length = xs.length / 2 := by
      rw [List.length_take]
      omega
    have rightLength : (xs.drop (xs.length / 2)).length = xs.length - xs.length / 2 := List.length_drop
    have split := halves (xs.take (xs.length / 2)) (xs.drop (xs.length / 2))
    rw [List.take_append_drop] at split
    exact split leftLength (List.length_pos_iff.mp (by omega)) (List.length_pos_iff.mp (by omega))
      (ih _ (by omega) _ rfl) (ih _ (by omega) _ rfl)

section Runs

variable {mod : Int} {left right : List Segment} {mid last : Segment}

theorem lastItem_append {α : Type} (xs : List α) {ys : List α} {x : α} (last : lastItem ys = .ok x) :
    lastItem (xs ++ ys) = .ok x := by
  rw [lastItem] at last ⊢
  split at last
  · next y found =>
    rw [List.getLast?_append, found]
    exact last
  · cases last

theorem halves_shape {α : Type} {left right : List α} (half : left.length = (left ++ right).length / 2)
    (filled : left ≠ []) : ∃ first second rest, left ++ right = first :: second :: rest ∧
      (rest.length + 2) / 2 = left.length := by
  have two : 2 ≤ (left ++ right).length := by
    have := List.length_pos_iff.mpr filled
    omega
  generalize left ++ right = all at half two
  match all, two with
  | first :: second :: rest, _ => exact ⟨first, second, rest, rfl, half.symm⟩

theorem balanceChainRight_run {pivotVar : Text} {f g : Affine Int} {leftLines rightLines : List Line}
    (nonzero : mod ≠ 0) (half : left.length = (left ++ right).length / 2) (filled : left ≠ [])
    (leftRun : balanceChainRight mod left pivotVar = .ok (f, leftLines)) (midIs : lastItem left = .ok mid)
    (rightRun : balanceChainRight mod right mid.endpointVar = .ok (g, rightLines))
    (lastIs : lastItem right = .ok last) :
    balanceChainRight mod (left ++ right) pivotVar =
      .ok (Affine.canonical mod (g * f), leftLines ++ rightLines ++ [.equation [last.endpointVar,
        formatLinear g mid.endpointVar, formatLinear (Affine.canonical mod (g * f)) pivotVar]]) := by
  obtain ⟨first, second, rest, whole, middle⟩ := halves_shape half filled
  have lastIs := lastItem_append left lastIs
  rw [whole] at lastIs
  rw [whole, balanceChainRight, middle, ← whole, List.take_left, List.drop_left, leftRun]
  simp only [ok_bind, midIs, rightRun, canonicalize_ok nonzero, whole, lastIs]
  rfl

theorem balanceResolve_run {baseVal : Int} {baseVar : Text} {g : Affine Int} {value result : Int}
    {leftLines rightLines : List Line} (half : left.length = (left ++ right).length / 2) (filled : left ≠ [])
    (leftRun : balanceResolve mod left baseVal baseVar = .ok (value, leftLines)) (midIs : lastItem left = .ok mid)
    (rightRun : balanceChainRight mod right mid.endpointVar = .ok (g, rightLines))
    (lastIs : lastItem right = .ok last) (made : pyMod (g.apply value) mod = .ok result) :
    balanceResolve mod (left ++ right) baseVal baseVar =
      .ok (result, leftLines ++ rightLines ++ [.equation [last.endpointVar, formatLinear g mid.endpointVar,
        formatLinearWithLiteral g value, decimal result]]) := by
  obtain ⟨first, second, rest, whole, middle⟩ := halves_shape half filled
  rw [whole, balanceResolve, middle, ← whole, List.take_left, List.drop_left, leftRun]
  simp only [ok_bind, midIs, rightRun, lastIs, made]
  rfl

end Runs

section Sound

variable {data : ChainData} {ch : List Text} {mod : Int}

structure Spans (data : ChainData) (ch : List Text) (mod : Int) (i j : Nat) (s : Segment) : Prop where
  base : s.baseVar = varOf ch i
  endpoint : s.endpointVar = varOf ch j
  increasing : i < j
  covers : Covers mod (data.forms i j) s.form

inductive Tiles (data : ChainData) (ch : List Text) (mod : Int) : Nat → Nat → List Segment → Prop
  | nil (i : Nat) : Tiles data ch mod i i []
  | cons {i middle j : Nat} {s : Segment} {rest : List Segment} (head : Spans data ch mod i middle s)
      (tail : Tiles data ch mod middle j rest) : Tiles data ch mod i j (s :: rest)

theorem Tiles.le {i j : Nat} {segments : List Segment} (tiles : Tiles data ch mod i j segments) :
    i ≤ j := by
  induction tiles with
  | nil i => exact le_rfl
  | cons head _ ih => exact head.increasing.le.trans ih

theorem Tiles.lt {i j : Nat} {segments : List Segment} (tiles : Tiles data ch mod i j segments)
    (filled : segments ≠ []) : i < j := by
  cases tiles with
  | nil i => exact absurd rfl filled
  | cons head tail => exact head.increasing.trans_le tail.le

theorem Tiles.split {i j : Nat} {left right : List Segment}
    (tiles : Tiles data ch mod i j (left ++ right)) :
    ∃ middle, Tiles data ch mod i middle left ∧ Tiles data ch mod middle j right := by
  induction left generalizing i with
  | nil => exact ⟨i, .nil i, tiles⟩
  | cons s left ih =>
    cases tiles with
    | cons head tail =>
      obtain ⟨middle, first, second⟩ := ih tail
      exact ⟨middle, .cons head first, second⟩

theorem Tiles.last {i j : Nat} {segments : List Segment} (tiles : Tiles data ch mod i j segments)
    (filled : segments ≠ []) :
    ∃ s, lastItem segments = .ok s ∧ s.endpointVar = varOf ch j := by
  induction tiles with
  | nil i => exact absurd rfl filled
  | @cons _ _ _ s rest head tail ih =>
    rcases rest with _ | ⟨next, rest⟩
    · cases tail
      exact ⟨s, rfl, head.endpoint⟩
    · obtain ⟨last, found, endpoint⟩ := ih (by simp)
      exact ⟨last, by simpa [lastItem] using found, endpoint⟩

variable (positive : 1 ≤ mod) (follows : data.Follows mod) (pool : Pool ch (data.ops.length + 1))

include positive follows pool in
theorem balanceChainRight_correct (segments : List Segment) {i j : Nat} {known : List Line}
    (tiles : Tiles data ch mod i j segments) (filled : segments ≠ []) (within : j ≤ data.ops.length)
    (shown : ∀ s ∈ segments, Shown known s.endpointVar (formatLinear s.form s.baseVar)) :
    ∃ f lines, balanceChainRight mod segments (varOf ch i) = .ok (f, lines) ∧
      Covers mod (data.forms i j) f ∧ Derives Justified known lines ∧
      (∀ line ∈ lines, line.introduces = none ∧ TrueLine data ch mod line) ∧
      Shown (known ++ lines) (varOf ch j) (formatLinear f (varOf ch i)) := by
  induction segments using halves_induction generalizing i j known with
  | nil => exact absurd rfl filled
  | single segment =>
    cases tiles with
    | cons head tail =>
      cases tail
      refine ⟨segment.form, [], by rw [balanceChainRight], head.covers, trivial, by simp, ?_⟩
      have here := shown segment (by simp)
      rwa [head.endpoint, head.base, ← List.append_nil known] at here
  | halves left right half leftFilled rightFilled ihLeft ihRight =>
    obtain ⟨m, leftTiles, rightTiles⟩ := tiles.split
    rw [List.forall_mem_append] at shown
    have mj := rightTiles.le
    have im := leftTiles.le
    obtain ⟨leftForm, leftLines, leftRun, leftCovers, leftDerived, leftTrue, leftShown⟩ :=
      ihLeft leftTiles leftFilled (by omega) shown.1
    obtain ⟨rightForm, rightLines, rightRun, rightCovers, rightDerived, rightTrue, rightShown⟩ :=
      @ihRight m j (known ++ leftLines) rightTiles rightFilled within
        fun s member => (shown.2 s member).mono (List.subset_append_left _ _)
    obtain ⟨midSegment, midFound, midVar⟩ := leftTiles.last leftFilled
    obtain ⟨lastSegment, lastFound, lastVar⟩ := rightTiles.last rightFilled
    set newForm := Affine.canonical mod (rightForm * leftForm) with newIs
    have newCovers : Covers mod (data.forms i j) newForm := by
      rw [ChainData.forms_append im mj]
      exact leftCovers.append (by omega) rightCovers
    refine ⟨newForm, leftLines ++ rightLines ++ [.equation [varOf ch j,
      formatLinear rightForm (varOf ch m), formatLinear newForm (varOf ch i)]], ?_, newCovers, ?_, ?_, ?_⟩
    · rw [← midVar] at rightRun
      rw [balanceChainRight_run (by omega) half leftFilled leftRun midFound rightRun lastFound, midVar, lastVar]
    · rw [Derivation.derives_append, Derivation.derives_append, Derivation.derives_singleton]
      refine ⟨⟨leftDerived, rightDerived⟩, .combine _ _ _ _ _ ?_⟩
      rwa [← List.append_assoc]
    · intro line member
      rcases List.mem_append.mp member with member | member
      · rcases List.mem_append.mp member with member | member
        · exact leftTrue line member
        · exact rightTrue line member
      · obtain rfl := List.mem_singleton.mp member
        refine ⟨rfl, data.value j, ?_⟩
        simp only [Line.equation, List.forall_mem_cons]
        exact ⟨denotes_varOf follows pool within,
          denotes_covered follows pool mj within rightCovers,
          denotes_covered follows pool (im.trans mj) within newCovers, by simp⟩
    · rw [← List.append_assoc]
      exact .of_last rfl rfl

include positive follows pool in
theorem resolveLine_true {i j : Nat} {f : Affine Int} (ordered : i < j) (within : j ≤ data.ops.length)
    (covers : Covers mod (data.forms i j) f) :
    TrueLine data ch mod (.equation [varOf ch j, formatLinear f (varOf ch i),
      formatLinearWithLiteral f (data.value i), decimal (data.value j)]) := by
  refine ⟨data.value j, ?_⟩
  simp only [Line.equation, List.forall_mem_cons]
  exact ⟨denotes_varOf follows pool within, denotes_covered follows pool ordered.le within covers,
    denotes_formatLinearWithLiteral (follows.value_nonneg positive (by omega))
      (follows.covers_value ordered.le within covers),
    denotes_decimal rfl, by simp⟩

include positive follows pool in
theorem balanceResolve_correct (segments : List Segment) {i j : Nat} {known : List Line} (baseVar : Text)
    (tiles : Tiles data ch mod i j segments) (within : j ≤ data.ops.length)
    (shown : ∀ s ∈ segments, Shown known s.endpointVar (formatLinear s.form s.baseVar))
    (concluded : Shown known (varOf ch i) (decimal (data.value i))) :
    ∃ lines, balanceResolve mod segments (data.value i) baseVar = .ok (data.value j, lines) ∧
      Derives Justified known lines ∧
      (∀ line ∈ lines, line.introduces = none ∧ TrueLine data ch mod line) ∧
      (segments ≠ [] → (lines.getLast?.bind fun line => line.sides.getLast?) =
        some (decimal (data.value j))) ∧
      Shown (known ++ lines) (varOf ch j) (decimal (data.value j)) := by
  induction segments using halves_induction generalizing i j known with
  | nil =>
    cases tiles
    exact ⟨[], by rw [balanceResolve], trivial, by simp, by simp, by simpa using concluded⟩
  | single segment =>
    cases tiles with
    | cons head tail =>
      cases tail
      have result := follows.covers_mod positive head.increasing within head.covers
      have line := resolveLine_true positive follows pool head.increasing within head.covers
      have here := shown segment (by simp)
      rw [head.endpoint, head.base] at here
      refine ⟨[.equation [varOf ch j, formatLinear segment.form (varOf ch i),
        formatLinearWithLiteral segment.form (data.value i), decimal (data.value j)]], ?_, ?_, ?_, ?_, ?_⟩
      · rw [balanceResolve, result, head.endpoint, head.base]
        rfl
      · exact Derivation.derives_singleton.mpr (.resolve _ _ _ _ _ here concluded)
      · simpa using ⟨rfl, line⟩
      · intro _
        rfl
      · exact .of_last rfl rfl
  | halves left right half leftFilled rightFilled ihLeft =>
    obtain ⟨m, leftTiles, rightTiles⟩ := tiles.split
    rw [List.forall_mem_append] at shown
    have mj := rightTiles.lt rightFilled
    obtain ⟨leftLines, leftRun, leftDerived, leftTrue, _, leftConcluded⟩ :=
      ihLeft leftTiles (by omega) shown.1 concluded
    obtain ⟨rightForm, rightLines, rightRun, rightCovers, rightDerived, rightTrue, rightShown⟩ :=
      @balanceChainRight_correct _ _ _ positive follows pool right m j (known ++ leftLines)
        rightTiles rightFilled within
        fun s member => (shown.2 s member).mono (List.subset_append_left _ _)
    obtain ⟨midSegment, midFound, midVar⟩ := leftTiles.last leftFilled
    obtain ⟨lastSegment, lastFound, lastVar⟩ := rightTiles.last rightFilled
    have result := follows.covers_mod positive mj within rightCovers
    have line := resolveLine_true positive follows pool mj within rightCovers
    refine ⟨leftLines ++ rightLines ++ [.equation [varOf ch j, formatLinear rightForm (varOf ch m),
      formatLinearWithLiteral rightForm (data.value m), decimal (data.value j)]], ?_, ?_, ?_, ?_, ?_⟩
    · rw [← midVar] at rightRun
      rw [balanceResolve_run half leftFilled leftRun midFound rightRun lastFound result, midVar, lastVar]
    · rw [Derivation.derives_append, Derivation.derives_append, Derivation.derives_singleton]
      refine ⟨⟨leftDerived, rightDerived⟩, .resolve _ _ _ _ _ ?_ ?_⟩
      · rwa [← List.append_assoc]
      · refine leftConcluded.mono ?_
        rw [← List.append_assoc]
        exact List.subset_append_left _ _
    · intro line' member
      rcases List.mem_append.mp member with member | member
      · rcases List.mem_append.mp member with member | member
        · exact leftTrue line' member
        · exact rightTrue line' member
      · obtain rfl := List.mem_singleton.mp member
        exact ⟨rfl, line⟩
    · intro _
      simp [Line.equation]
    · rw [← List.append_assoc]
      exact .of_last rfl rfl

end Sound

section Rounds

variable (data : ChainData) (ch : List Text) (mod : Int) (i : Nat)

def formA : Affine Int := Affine.canonical mod ((data.op i).form (data.const i))

def formB : Affine Int :=
  Affine.canonical mod ((data.op (i + 1)).after (data.const (i + 1)) (formA data mod i))

def lineA : Line :=
  let step := opText (varOf ch i) (data.op i) (data.const i)
  .define (data.name (i + 1)) (varOf ch (i + 1))
    (if data.op i = .mul then
      [varOf ch (i + 1), step, formatLinear (formA data mod i) (varOf ch i)]
    else [varOf ch (i + 1), step])

def substText : Text :=
  let stepA := formatLinear (formA data mod i) (varOf ch i)
  opText (if (formA data mod i).intercept ≠ 0 then parens stepA else stepA) (data.op (i + 1))
    (data.const (i + 1))

def lineB : Line :=
  let step := opText (varOf ch (i + 1)) (data.op (i + 1)) (data.const (i + 1))
  let stepB := formatLinear (formB data mod i) (varOf ch i)
  .define (data.name (i + 2)) (varOf ch (i + 2))
    (if substText data ch mod i = stepB then [varOf ch (i + 2), step, substText data ch mod i]
    else [varOf ch (i + 2), step, substText data ch mod i, stepB])

def roundSegment : Segment := ⟨varOf ch (i + 2), varOf ch i, formB data mod i⟩

variable {data ch mod i}

theorem segmentRound_eq {segIdx : Nat} (nonzero : mod ≠ 0) (sized : data.Sized)
    (from_ : 2 * (segIdx - 1) = i) (within : i + 2 ≤ data.ops.length) :
    segmentRound data ((List.range (data.ops.length + 1)).map (varOf ch)) mod segIdx =
      .ok ([lineA data ch mod i, lineB data ch mod i], roundSegment data ch mod i) := by
  subst from_
  simp only [segmentRound, Nat.add_sub_cancel, Nat.add_succ_sub_one]
  rw [item_popMany (by omega), ChainData.item_op (by omega), sized.item_const (by omega),
    sized.item_name (by omega), item_popMany (by omega), ChainData.item_op (by omega),
    sized.item_const (by omega), sized.item_name (by omega), item_popMany (by omega)]
  simp only [canonicalize_ok nonzero, ok_bind]
  unfold lineA lineB roundSegment substText formB formA
  congr 3
  · split <;> rfl
  · split <;> split <;> simp_all

theorem formA_covers (positive : 1 ≤ mod) : Covers mod (data.forms i (i + 1)) (formA data mod i) := by
  rw [ChainData.forms_succ]
  exact Covers.single (by omega) _

theorem formB_covers (positive : 1 ≤ mod) : Covers mod (data.forms i (i + 2)) (formB data mod i) := by
  have first : Covers mod (data.forms i (i + 1)) (formA data mod i) := formA_covers positive
  have both := first.append_step (by omega) ((data.op (i + 1)).form (data.const (i + 1)))
  rw [← ChainData.forms_succ, ← ChainData.forms_append (by omega) (by omega)] at both
  rwa [formB, Op.after_eq]

theorem roundSegment_spans (positive : 1 ≤ mod) :
    Spans data ch mod i (i + 2) (roundSegment data ch mod i) where
  base := rfl
  endpoint := rfl
  increasing := by omega
  covers := formB_covers positive

theorem lineA_true (positive : 1 ≤ mod) (follows : data.Follows mod)
    (pool : Pool ch (data.ops.length + 1)) (within : i + 2 ≤ data.ops.length) :
    TrueLine data ch mod (lineA data ch mod i) := by
  have var := denotes_varOf follows pool (by omega : i + 1 ≤ data.ops.length)
  have step := denotes_operation_name follows (by omega : i < data.ops.length)
    (pool.varOf_named (by omega)) (chainEnv_varOf follows.toSized pool (by omega))
  have form := denotes_covered follows pool (by omega) (by omega : i + 1 ≤ data.ops.length)
    (formA_covers positive)
  refine ⟨data.value (i + 1), ?_⟩
  simp only [lineA, Line.define]
  split
  · simp only [List.forall_mem_cons]
    exact ⟨var, step, form, by simp⟩
  · simp only [List.forall_mem_cons]
    exact ⟨var, step, by simp⟩

theorem substText_denotes (positive : 1 ≤ mod) (follows : data.Follows mod)
    (pool : Pool ch (data.ops.length + 1)) (within : i + 2 ≤ data.ops.length) :
    Denotes (chainEnv data ch) mod (data.value (i + 2)) (substText data ch mod i) := by
  have named := pool.varOf_named (by omega : i < data.ops.length + 1)
  have known := chainEnv_varOf follows.toSized pool (by omega : i ≤ data.ops.length)
  have covers : Covers mod (data.forms i (i + 1)) (formA data mod i) := formA_covers positive
  have nonneg := covers.canonical.slope_nonneg
  have same := follows.covers_value (by omega) (by omega) covers
  have atom : (Tree.name (varOf ch i)).Names fun x =>
      IsName x ∧ chainEnv data ch x = some (data.value i) := ⟨named, known⟩
  unfold substText
  simp only [formatLinear_name nonneg named]
  split
  · have group : (Tree.single (.group (linearTree (formA data mod i) (.name (varOf ch i))))).Names
        fun x => IsName x ∧ chainEnv data ch x = some (data.value i) := linearTree_names atom
    have value : (Tree.single (.group (linearTree (formA data mod i) (.name (varOf ch i))))).denote
        (fun _ => data.value i) ≡ data.value (i + 1) [ZMOD mod] := by
      rwa [Tree.denote, Tree.denote, linearTree_denote _ nonneg]
    -- stated before it is compared with the text shown
    have shown := denotes_operation (fun _ => data.value i) follows (by omega : i + 1 < _) group value
    exact shown
  · next flat =>
    have flat : (formA data mod i).intercept = 0 := not_not.mp flat
    have value := linearTree_denote (fun _ => data.value i) nonneg (.name (varOf ch i))
    have names := linearTree_names (f := formA data mod i) atom
    rw [linearTree_flat flat] at value names ⊢
    refine denotes_operation (fun _ => data.value i) follows (by omega : i + 1 < _) names ?_
    simp only [Tree.denote] at value
    rwa [value]

theorem lineB_true (positive : 1 ≤ mod) (follows : data.Follows mod)
    (pool : Pool ch (data.ops.length + 1)) (within : i + 2 ≤ data.ops.length) :
    TrueLine data ch mod (lineB data ch mod i) := by
  have var := denotes_varOf follows pool within
  have step := denotes_operation_name follows (by omega : i + 1 < data.ops.length)
    (pool.varOf_named (by omega)) (chainEnv_varOf follows.toSized pool (by omega))
  have subst := substText_denotes positive follows pool within
  have form := denotes_covered follows pool (by omega) within (formB_covers positive)
  refine ⟨data.value (i + 2), ?_⟩
  simp only [lineB, Line.define]
  split
  · simp only [List.forall_mem_cons]
    exact ⟨var, step, subst, by simp⟩
  · simp only [List.forall_mem_cons]
    exact ⟨var, step, subst, form, by simp⟩

theorem lineB_last : (lineB data ch mod i).sides.head? = some (varOf ch (i + 2)) ∧
    (lineB data ch mod i).sides.getLast? = some (formatLinear (formB data mod i) (varOf ch i)) := by
  simp only [lineB, Line.define]
  split
  · next same => simp [same]
  · simp

end Rounds

section Whole

variable (data : ChainData) (ch : List Text) (mod : Int)

def roundStarts : List Nat := (List.range' 2 (data.ops.length / 2 - 1)).map fun segIdx => 2 * (segIdx - 1)

def firstLines : List Line :=
  [.define (data.name 0) (varOf ch 0) [varOf ch 0, decimal (data.value 0)],
    .define (data.name 1) (varOf ch 1)
      [varOf ch 1, opText (decimal (data.value 0)) (data.op 0) (data.const 0), decimal (data.value 1)],
    .define (data.name 2) (varOf ch 2)
      [varOf ch 2, opText (varOf ch 1) (data.op 1) (data.const 1),
        opText (decimal (data.value 1)) (data.op 1) (data.const 1), decimal (data.value 2)]]

def partLines : List Line :=
  firstLines data ch ++
    (roundStarts data).flatMap fun i => [lineA data ch mod i, lineB data ch mod i]

def roundSegments : List Segment := (roundStarts data).map (roundSegment data ch mod)

variable {data ch mod}

theorem balanceParts_eq (nonzero : mod ≠ 0) (sized : data.Sized) (enough : data.ops.length + 1 ≤ ch.length)
    (two : 2 ≤ data.ops.length) :
    balanceParts ch data mod = .ok (partLines data ch mod, roundSegments data ch mod) := by
  have rounds : (List.range' 2 (data.ops.length / 2 - 1)).mapM
      (segmentRound data ((List.range (data.ops.length + 1)).map (varOf ch)) mod) =
      .ok ((List.range' 2 (data.ops.length / 2 - 1)).map fun segIdx =>
        ([lineA data ch mod (2 * (segIdx - 1)), lineB data ch mod (2 * (segIdx - 1))],
          roundSegment data ch mod (2 * (segIdx - 1)))) := by
    refine mapM_ok fun segIdx member => segmentRound_eq nonzero sized rfl ?_
    obtain ⟨low, high⟩ := List.mem_range'_1.mp member
    omega
  simp only [balanceParts]
  rw [popMany_ok enough, sized.item_name (by omega), sized.item_value (by omega),
    ChainData.item_op (by omega), sized.item_const (by omega), sized.item_value (by omega),
    sized.item_name (by omega), ChainData.item_op (by omega), sized.item_const (by omega),
    sized.item_value two, sized.item_name two]
  simp only [ok_bind]
  rw [item_popMany (by omega), item_popMany (by omega), item_popMany (by omega), rounds]
  simp only [ok_bind, partLines, firstLines, roundSegments, roundStarts, List.flatMap_map, List.map_map]
  rfl

theorem tiles_rounds (positive : 1 ≤ mod) (count start : Nat) :
    Tiles data ch mod (2 * start) (2 * (start + count))
      (((List.range' (start + 1) count).map fun segIdx => 2 * (segIdx - 1)).map
        (roundSegment data ch mod)) := by
  induction count generalizing start with
  | zero => exact .nil _
  | succ count ih =>
    have rest := ih (start + 1)
    rw [show 2 * (start + 1 + count) = 2 * (start + (count + 1)) by omega] at rest
    rw [List.range'_succ, List.map_cons, List.map_cons, Nat.add_sub_cancel]
    exact .cons (roundSegment_spans positive) rest

theorem tiles_roundSegments (positive : 1 ≤ mod) {half : Nat} (even : data.ops.length = 2 * half)
    (two : 2 ≤ data.ops.length) :
    Tiles data ch mod 2 data.ops.length (roundSegments data ch mod) := by
  have tiles : Tiles data ch mod _ _ _ := tiles_rounds positive (half - 1) 1
  have count : data.ops.length / 2 - 1 = half - 1 := by omega
  rw [show 2 * (1 + (half - 1)) = data.ops.length by omega, ← count] at tiles
  exact tiles

theorem roundStarts_within {i : Nat} (member : i ∈ roundStarts data) : i + 2 ≤ data.ops.length := by
  obtain ⟨segIdx, inside, rfl⟩ := List.mem_map.mp member
  obtain ⟨low, high⟩ := List.mem_range'_1.mp inside
  omega

theorem firstLines_true (positive : 1 ≤ mod) (follows : data.Follows mod)
    (pool : Pool ch (data.ops.length + 1)) (two : 2 ≤ data.ops.length) :
    ∀ line ∈ firstLines data ch, TrueLine data ch mod line := by
  have number {i : Nat} (within : i ≤ data.ops.length) :
      Denotes (chainEnv data ch) mod (data.value i) (decimal (data.value i)) :=
    denotes_decimal rfl
  have var {i : Nat} (within : i ≤ data.ops.length) := denotes_varOf follows pool within
  have step := denotes_operation_name follows (by omega : 1 < data.ops.length)
    (pool.varOf_named (by omega)) (chainEnv_varOf follows.toSized pool (by omega))
  have stepValue {i : Nat} (within : i < data.ops.length) :
      Denotes (chainEnv data ch) mod (data.value (i + 1))
        (opText (decimal (data.value i)) (data.op i) (data.const i)) :=
    denotes_operation_value follows positive within
  simp only [firstLines, List.forall_mem_cons, TrueLine, Line.define]
  exact ⟨⟨_, var (by omega), number (by omega), by simp⟩,
    ⟨_, var (by omega), stepValue (by omega), number (by omega), by simp⟩,
    ⟨_, var two, step, stepValue (by omega), number two, by simp⟩, by simp⟩

theorem partLines_true (positive : 1 ≤ mod) (follows : data.Follows mod)
    (pool : Pool ch (data.ops.length + 1)) (two : 2 ≤ data.ops.length) :
    ∀ line ∈ partLines data ch mod, TrueLine data ch mod line := by
  intro line member
  rcases List.mem_append.mp member with member | member
  · exact firstLines_true positive follows pool two line member
  · obtain ⟨i, start, member⟩ := List.mem_flatMap.mp member
    have within := roundStarts_within start
    simp only [List.mem_cons, List.not_mem_nil, or_false] at member
    rcases member with rfl | rfl
    · exact lineA_true positive follows pool within
    · exact lineB_true positive follows pool within

theorem partLines_define : ∀ line ∈ partLines data ch mod, ∃ name var sides,
    line = Line.define name var sides := by
  intro line member
  rcases List.mem_append.mp member with member | member
  · simp only [firstLines, List.mem_cons, List.not_mem_nil, or_false] at member
    rcases member with rfl | rfl | rfl <;> exact ⟨_, _, _, rfl⟩
  · obtain ⟨i, _, member⟩ := List.mem_flatMap.mp member
    simp only [List.mem_cons, List.not_mem_nil, or_false] at member
    rcases member with rfl | rfl <;> exact ⟨_, _, _, rfl⟩

theorem roundSegments_shown : ∀ s ∈ roundSegments data ch mod,
    Shown (partLines data ch mod) s.endpointVar (formatLinear s.form s.baseVar) := by
  intro s member
  obtain ⟨i, start, rfl⟩ := List.mem_map.mp member
  refine ⟨lineB data ch mod i, ?_, lineB_last⟩
  exact List.mem_append_right _ (List.mem_flatMap.mpr ⟨i, start, by simp⟩)

theorem balanceEnd_correct (positive : 1 ≤ mod) (follows : data.Follows mod)
    (pool : Pool ch (data.ops.length + 1)) {half : Nat} (even : data.ops.length = 2 * half)
    (two : 2 ≤ data.ops.length) :
    ∃ resolveLines, balanceEnd ch data mod (roundSegments data ch mod) =
        .ok (data.value data.ops.length, resolveLines) ∧
      Derives Justified (partLines data ch mod) resolveLines ∧
      (∀ line ∈ resolveLines, line.introduces = none ∧ TrueLine data ch mod line) ∧
      ((partLines data ch mod ++ resolveLines).getLast?.bind fun line => line.sides.getLast?) =
        some (decimal (data.value data.ops.length)) := by
  have concluded : Shown (partLines data ch mod) (varOf ch 2) (decimal (data.value 2)) :=
    ⟨_, List.mem_append_left _ (List.mem_cons_of_mem _ (List.mem_cons_of_mem _ List.mem_cons_self)),
      rfl, rfl⟩
  obtain ⟨resolveLines, run, derived, lines, last, _⟩ :=
    balanceResolve_correct positive follows pool (roundSegments data ch mod) (varOf ch 2)
      (tiles_roundSegments positive even two) le_rfl roundSegments_shown concluded
  refine ⟨resolveLines, ?_, derived, lines, ?_⟩
  · rw [balanceEnd, follows.item_value two, pop_ok (by have := pool.enough; omega)]
    exact run
  · by_cases segments : roundSegments data ch mod = []
    · -- two operations: the last line is the definition of the last node
      have none : data.ops.length / 2 - 1 = 0 := by
        simpa [roundSegments, roundStarts] using segments
      have length : data.ops.length = 2 := by omega
      rw [segments, balanceResolve] at run
      obtain ⟨-, rfl⟩ := Prod.mk.inj (Except.ok.inj run)
      simp [partLines, roundStarts, firstLines, Line.define, length]
    · have filled : resolveLines ≠ [] := by
        rintro rfl
        simp at last
        exact segments last
      rw [List.getLast?_append_of_ne_nil _ filled]
      exact last segments

theorem justified_parts (resolveLines : List Line)
    (derived : Derives Justified (partLines data ch mod) resolveLines) {before after : List Line}
    {line : Line} (split : partLines data ch mod ++ resolveLines = before ++ line :: after) :
    Justified before line := by
  have all : Derives Justified [] (partLines data ch mod ++ resolveLines) := by
    refine Derivation.derives_append.mpr ⟨Derivation.derives_of_forall ?_, by simpa using derived⟩
    intro line member known
    obtain ⟨name, var, sides, rfl⟩ := partLines_define line member
    exact .define name var sides
  simpa using all.rule_at split

theorem power_accepted {op k : Nat} (exponent : 1 ≤ k) (power : op = 2 ^ k) :
    ¬(op < 2 ∨ op &&& (op - 1) ≠ 0) := by
  subst power
  have two : 2 ^ 1 ≤ 2 ^ k := Nat.pow_le_pow_right (by omega) exponent
  rw [Nat.and_two_pow_sub_one_eq_mod, Nat.mod_self]
  omega

theorem power_even {op k : Nat} (exponent : 1 ≤ k) (power : op = 2 ^ k) :
    2 ≤ op ∧ ∃ half, op = 2 * half := by
  obtain ⟨k, rfl⟩ := Nat.exists_eq_add_of_le exponent
  rw [power, Nat.pow_add]
  have filled : 0 < 2 ^ k := Nat.pow_pos (by omega)
  exact ⟨by omega, 2 ^ k, by omega⟩

theorem balanceforwardText_eq (nonzero : mod ≠ 0) (sized : data.Sized) (enough : data.ops.length + 1 ≤ ch.length)
    (two : 2 ≤ data.ops.length) {resolved : Int} {resolveLines : List Line}
    (run : balanceEnd ch data mod (roundSegments data ch mod) = .ok (resolved, resolveLines)) :
    balanceforwardText ch data mod =
      .ok (solutionText (partLines data ch mod ++ resolveLines) (data.value data.ops.length)) := by
  simp only [balanceforwardText, balanceParts_eq nonzero sized enough two, ok_bind, run, sized.last_value]
  rfl

-- The hierarchical solution is a derivation: all its equations hold, every merge rests on what
-- was shown before, and it ends in the answer.
theorem balanceforward_sound {vars : List Text} {k : Nat} (exponent : 1 ≤ k)
    (power : data.ops.length = 2 ^ k) (pool : Pool vars (data.ops.length + 1)) (positive : 1 ≤ mod)
    (follows : data.Follows mod) :
    (balanceforwardSolution vars data mod).Safe ∧
      ∀ text, (balanceforwardSolution vars data mod).Returns text →
        ∃ ch, ch.Perm vars ∧ ∃ parts segments resolved resolveLines,
          balanceParts ch data mod = .ok (parts, segments) ∧
          balanceEnd ch data mod segments = .ok (resolved, resolveLines) ∧
          text = solutionText (parts ++ resolveLines) (data.value data.ops.length) ∧
          (∀ line ∈ parts ++ resolveLines, TrueLine data ch mod line) ∧
          (∀ before line after, parts ++ resolveLines = before ++ line :: after →
            Justified before line) ∧
          (∀ line ∈ resolveLines, line.introduces = none) ∧
          resolved = data.value data.ops.length ∧
          ((parts ++ resolveLines).getLast?.bind fun line => line.sides.getLast?) =
            some (decimal (data.value data.ops.length)) := by
  obtain ⟨two, half, even⟩ := power_even exponent power
  have accepted := power_accepted exponent power
  have run (ch : List Text) (same : ch.Perm vars) :=
    balanceEnd_correct positive follows (pool.perm same) even two
  simp only [balanceforwardSolution, if_neg accepted]
  refine shuffled_all fun ch same => ?_
  obtain ⟨resolveLines, ran, derived, lines, last⟩ := run ch same
  refine ⟨_, balanceforwardText_eq (by omega) follows.toSized (pool.perm same).enough two ran,
    ch, same, partLines data ch mod, roundSegments data ch mod, _, resolveLines,
    balanceParts_eq (by omega) follows.toSized (pool.perm same).enough two, ran, rfl, ?_,
    fun _ _ _ => justified_parts resolveLines derived, fun line member => (lines line member).1, rfl, last⟩
  intro line member
  rcases List.mem_append.mp member with member | member
  · exact partLines_true positive follows (pool.perm same) two line member
  · exact (lines line member).2

-- Eight operations modulo 5, in four pairs.
def eightChain : ChainData where
  chainNames := [lit "cats", lit "dogs", lit "owls", lit "hens", lit "cows", lit "pigs", lit "rats", lit "bats",
    lit "bees"]
  values := [1, 3, 1, 0, 3, 4, 0, 2, 3]
  constants := [2, 2, 4, 3, 3, 1, 2, 4]
  ops := [.add, .mul, .add, .add, .mul, .add, .add, .mul]
  problemText :=
    lit "The number of cats equals 1. The number of dogs equals the number of cats plus 2. " ++
      lit "The number of owls equals the number of dogs times 2. The number of hens equals the number of owls plus 4. " ++
      lit "The number of cows equals the number of hens plus 3. The number of pigs equals the number of cows times 3. " ++
      lit "The number of rats equals the number of pigs plus 1. The number of bats equals the number of rats plus 2. " ++
      lit "The number of bees equals the number of bats times 4."
  questionText := lit "What is the number of bees?"

theorem eightChain_follows : eightChain.Follows 5 where
  names := rfl
  values := rfl
  constants := rfl
  first_nonneg := by decide
  constants_pos := by decide
  step := by decide

theorem balanceforward_sound_eight : ∃ ch parts segments resolveLines, ch.Perm variableNames ∧
    balanceParts ch eightChain 5 = .ok (parts, segments) ∧ segments.length = 3 ∧
    balanceEnd ch eightChain 5 segments = .ok (3, resolveLines) ∧
    (balanceforwardSolution variableNames eightChain 5).Returns (solutionText (parts ++ resolveLines) 3) ∧
    (∀ line ∈ parts ++ resolveLines, TrueLine eightChain ch 5 line) ∧
    ∀ before line after, parts ++ resolveLines = before ++ line :: after → Justified before line := by
  obtain ⟨safe, sound⟩ := balanceforward_sound (by decide : 1 ≤ 3) (by decide : eightChain.ops.length = 2 ^ 3)
    (variablePool (by decide)) (by decide : (1 : Int) ≤ 5) eightChain_follows
  obtain ⟨text, returned⟩ := exists_returns safe
  obtain ⟨ch, same, parts, segments, resolved, resolveLines, made, ended, rfl, lines, justified, -, rfl, -⟩ :=
    sound text returned
  refine ⟨ch, parts, segments, resolveLines, same, made, ?_, ended, returned, lines, justified⟩
  have pool : Pool ch (eightChain.ops.length + 1) := (variablePool (by decide)).perm same
  rw [balanceParts_eq (by decide) eightChain_follows.toSized pool.enough (by decide)] at made
  rw [← (Prod.mk.inj (Except.ok.inj made)).2]
  rfl

end Whole

end CotCompression
