import CotCompression.Generator.Sample

set_option autoImplicit false

namespace CotCompression

open Program (Prog)
open Text (lit decimal)
open Expression (Tree IsName evaluate mentions)

structure ChainData.Computed (data : ChainData) (mod : Int) : Prop extends data.Sized where
  step : ∀ index < data.ops.length,
    data.value (index + 1) = (data.op index).apply (data.value index) (data.const index) % mod

theorem ChainData.Follows.computed {data : ChainData} {mod : Int} (follows : data.Follows mod) :
    data.Computed mod :=
  ⟨follows.toSized, follows.step⟩

section Slices

variable {data : ChainData} {mod : Int} {p q : Nat}

theorem runOps_slice (computed : data.Computed mod) (positive : 1 ≤ mod) (ordered : p ≤ q)
    (within : q ≤ data.ops.length) : runOps mod (data.value p) (sliceOps data p q) = .ok (data.value q) := by
  induction ordered using Nat.decreasingInduction with
  | self => rw [sliceOps_self, runOps]
  | of_succ p less later =>
    rw [sliceOps_cons computed.toSized less within, runOps, pyMod_ok positive, ok_bind,
      ← computed.step p (by omega), later]

end Slices

section Expressions

def applyOps (x : Int) (ops : List (Op × Int)) : Int :=
  ops.foldl (fun x (o, c) => o.apply x c) x

theorem Op.apply_modEq {mod x y : Int} (o : Op) (c : Int) (same : x ≡ y [ZMOD mod]) :
    o.apply x c ≡ o.apply y c [ZMOD mod] := by
  cases o with
  | add => exact same.add_right c
  | sub => exact same.sub_right c
  | mul => exact same.mul_right c

theorem applyOps_modEq {mod x y : Int} (ops : List (Op × Int)) (same : x ≡ y [ZMOD mod]) :
    applyOps x ops ≡ applyOps y ops [ZMOD mod] := by
  induction ops generalizing x y with
  | nil => exact same
  | cons entry rest ih => exact ih (entry.1.apply_modEq entry.2 same)

theorem runOps_modEq {mod x result : Int} {ops : List (Op × Int)} (ran : runOps mod x ops = .ok result) :
    applyOps x ops ≡ result [ZMOD mod] := by
  induction ops generalizing x with
  | nil => rw [← Except.ok.inj ran]; rfl
  | cons entry rest ih =>
    obtain ⟨o, c⟩ := entry
    rw [runOps] at ran
    obtain ⟨next, made, later⟩ := bind_eq_ok.mp ran
    have reduced : next ≡ o.apply x c [ZMOD mod] := by
      unfold pyMod at made
      split at made
      · cases made
      · rw [← Except.ok.inj made]
        exact Affine.fmod_modEq _ _
    exact (applyOps_modEq rest reduced.symm).trans (ih later)

theorem product_text (p : Tree .product) {c : Int} (nonneg : 0 ≤ c) :
    (Tree.times p (.number c.natAbs)).text = opText p.text .mul c := by
  rw [Tree.text, Tree.text, decimal_natAbs nonneg]
  simp [opText, Op.symbol, lit]

theorem sum_text (t : Tree .sum) {c : Int} (nonneg : 0 ≤ c) :
    (Tree.plus t (.single (.number c.natAbs))).text = opText t.text .add c ∧
      (Tree.minus t (.single (.number c.natAbs))).text = opText t.text .sub c := by
  simp only [Tree.text, decimal_natAbs nonneg]
  simp [opText, Op.symbol, lit]

-- While `needsParens` is down the text is a product, while it is up a sum; a product that follows
-- a sum finds it in brackets.
theorem growExpression_tree {good : Text → Prop} {ops : List (Op × Int)}
    (constants : ∀ entry ∈ ops, 0 ≤ entry.2) :
    (∀ p : Tree .product, p.Names good → ∃ s : Tree .sum, s.text = growExpression p.text false ops ∧
      s.Names good ∧ ∀ val, s.denote val = applyOps (p.denote val) ops) ∧
    ∀ t : Tree .sum, t.Names good → ∃ s : Tree .sum, s.text = growExpression t.text true ops ∧
      s.Names good ∧ ∀ val, s.denote val = applyOps (t.denote val) ops := by
  induction ops with
  | nil => exact ⟨fun p named => ⟨.first p, rfl, named, fun _ => rfl⟩, fun t named => ⟨t, rfl, named, fun _ => rfl⟩⟩
  | cons entry rest ih =>
    obtain ⟨o, c⟩ := entry
    obtain ⟨nonneg, constants⟩ := List.forall_mem_cons.mp constants
    have nonneg : 0 ≤ c := nonneg
    obtain ⟨fromProduct, fromSum⟩ := ih constants
    have literal : ((c.natAbs : Nat) : Int) = c := Int.natAbs_of_nonneg nonneg
    have product (p : Tree .product) (named : p.Names good) : ∃ s : Tree .sum,
        s.text = growExpression p.text false ((o, c) :: rest) ∧ s.Names good ∧
          ∀ val, s.denote val = applyOps (p.denote val) ((o, c) :: rest) := by
      by_cases times : o = .mul
      · subst times
        obtain ⟨s, text, names, value⟩ := fromProduct (.times p (.number c.natAbs)) ⟨named, trivial⟩
        refine ⟨s, ?_, names, fun val => ?_⟩
        · rw [text, product_text p nonneg]
          rfl
        · rw [value, Tree.denote, Tree.denote, literal]
          rfl
      · obtain ⟨s, text, names, value⟩ := fromSum (opTree p o c.natAbs) (opTree_names named o _)
        refine ⟨s, ?_, names, fun val => ?_⟩
        · rw [text, opTree_text, literal]
          simp only [growExpression, times, false_and, if_false]
        · rw [value, opTree_denote, literal]
          rfl
    refine ⟨product, fun t named => ?_⟩
    obtain ⟨plusText, minusText⟩ := sum_text t nonneg
    cases o with
    | mul => exact product (.single (.group t)) named
    | add =>
      obtain ⟨s, text, names, value⟩ := fromSum (.plus t (.single (.number c.natAbs))) ⟨named, trivial⟩
      refine ⟨s, ?_, names, fun val => ?_⟩
      · rw [text, plusText]
        rfl
      · rw [value, Tree.denote, Tree.denote, Tree.denote, literal]
        rfl
    | sub =>
      obtain ⟨s, text, names, value⟩ := fromSum (.minus t (.single (.number c.natAbs))) ⟨named, trivial⟩
      refine ⟨s, ?_, names, fun val => ?_⟩
      · rw [text, minusText]
        rfl
      · rw [value, Tree.denote, Tree.denote, Tree.denote, literal]
        rfl

variable {env : Text → Option Int} {ops : List (Op × Int)}

theorem evaluate_growExpression (val : Text → Int) {p : Tree .product} (constants : ∀ entry ∈ ops, 0 ≤ entry.2)
    (named : p.Names fun x => IsName x ∧ env x = some (val x)) :
    evaluate env (growExpression p.text false ops) = some (applyOps (p.denote val) ops) := by
  obtain ⟨s, text, names, value⟩ := (growExpression_tree constants).1 p named
  rw [← text, Expression.evaluate_text _ s names, value]

theorem mentions_growExpression {good : Text → Prop} {p : Tree .product}
    (constants : ∀ entry ∈ ops, 0 ≤ entry.2) (named : p.Names fun x => IsName x ∧ good x) :
    ∀ x ∈ mentions (growExpression p.text false ops), good x := by
  obtain ⟨s, text, names, _⟩ := (growExpression_tree constants).1 p named
  rw [← text]
  exact Expression.mentions_text s names

theorem number_names {good : Text → Prop} (n : Nat) : (Tree.single (.number n)).Names good := trivial

theorem mentions_decimal {z : Int} (nonneg : 0 ≤ z) : mentions (decimal z) = [] := by
  have text : (Tree.number z.natAbs).text = decimal z := decimal_natAbs nonneg
  refine List.eq_nil_iff_forall_not_mem.mpr fun x member => ?_
  rw [← text] at member
  have none : (Tree.number z.natAbs).Names fun x => IsName x ∧ False := trivial
  exact Expression.mentions_text _ none x member

end Expressions

section Breakpoints

variable {data : ChainData}

def nodeAt (op nest g : Nat) : Nat := min (nest * g) op

theorem breakpoints_nodeAt {op nest : Nat} (positive : 1 ≤ nest) (some : 1 ≤ op) :
    breakpoints op nest = .ok ((List.range ((op - 1) / nest + 2)).map (nodeAt op nest)) := by
  have below := Nat.mul_div_le (op - 1) nest
  have above := Nat.lt_mul_div_succ (op - 1) (by omega : 0 < nest)
  rw [breakpoints_pos (by omega) some, Int.toNat_natCast, List.range_succ (n := (op - 1) / nest + 1),
    List.map_append, List.map_singleton]
  have last : nodeAt op nest ((op - 1) / nest + 1) = op := Nat.min_eq_right (by omega)
  rw [last]
  congr 2
  refine List.map_congr_left fun g member => ?_
  have small := List.mem_range.mp member
  have inside : nest * g ≤ nest * ((op - 1) / nest) := Nat.mul_le_mul_left nest (by omega)
  exact (Nat.min_eq_left (by omega)).symm

theorem nodeAt_zero (op nest : Nat) : nodeAt op nest 0 = 0 := by simp [nodeAt]

end Breakpoints

section Meaning

def groups (data : ChainData) (points : List Nat) : List (List (Op × Int)) :=
  (points.zip points.tail).map fun (p, q) => sliceOps data p q

def variablesOf (lines : List Line) : List Text := (lines.filterMap Line.introduces).map Prod.snd

/-- Every line defines a variable of its own, and refers to those of earlier lines for the rest. -/
structure IntroducedFirst (lines : List Line) : Prop where
  distinct : (variablesOf lines).Nodup
  defines : ∀ before line after, lines = before ++ line :: after → ∃ name var sides,
    line = .define name var (var :: sides) ∧ ∀ side ∈ sides, ∀ x ∈ mentions side, x ∈ variablesOf before

-- The line of a composed solution for the operations from node `p` to node `q`.
def ComposedMeans (data : ChainData) (mod : Int) (prevVar var : Text) (p q : Nat) (line : Line) : Prop :=
  ∃ exprVar exprVal, line = .define (data.name q) var [var, exprVar, exprVal, decimal (data.value q)] ∧
    (∀ env : Text → Option Int, env prevVar = some (data.value p) →
      evaluate env exprVar = some (applyOps (data.value p) (sliceOps data p q))) ∧
    (∀ env : Text → Option Int, evaluate env exprVal = some (applyOps (data.value p) (sliceOps data p q))) ∧
    applyOps (data.value p) (sliceOps data p q) ≡ data.value q [ZMOD mod]

-- The line of a simplified solution: a group of one operation as above, of a longer group the last
-- operation only, on the value before it.
def SimplifiedMeans (data : ChainData) (mod : Int) (prevVar var : Text) (p q : Nat) (line : Line) : Prop :=
  (q = p + 1 ∧ ComposedMeans data mod prevVar var p q line) ∨
    (p + 1 < q ∧ ∃ expr, line = .define (data.name q) var [var, expr, decimal (data.value q)] ∧
      (∀ env : Text → Option Int,
        evaluate env expr = some ((data.op (q - 1)).apply (data.value (q - 1)) (data.const (q - 1)))) ∧
      applyOps (data.value p) (sliceOps data p (q - 1)) ≡ data.value (q - 1) [ZMOD mod] ∧
      (data.op (q - 1)).apply (data.value (q - 1)) (data.const (q - 1)) ≡ data.value q [ZMOD mod])

def Nested (means : Text → Text → Nat → Nat → Line → Prop) (data : ChainData) (ch : List Text)
    (maxNest : Int) (lines : List Line) : Prop :=
  ∃ points rest, breakpoints data.ops.length maxNest = .ok points ∧ lines = forwardLine ch data 0 :: rest ∧
    (groups data points).flatten = data.ops.zip data.constants ∧
    (∀ group ∈ (groups data points).dropLast, (group.length : Int) = maxNest) ∧
    (∀ group ∈ groups data points, group ≠ [] ∧ (group.length : Int) ≤ maxNest) ∧
    rest.length = (groups data points).length ∧ IntroducedFirst lines ∧
    ∀ (g p q : Nat), points[g]? = some p → points[g + 1]? = some q →
      ∃ line, rest[g]? = some line ∧ means (varOf ch g) (varOf ch (g + 1)) p q line

variable {ch vars : List Text} {data : ChainData} {mod : Int} {op nest count : Nat}

theorem zip_tail_range {α : Type} (f : Nat → α) (count : Nat) :
    ((List.range (count + 1)).map f).zip ((List.range (count + 1)).map f).tail =
      (List.range count).map fun g => (f g, f (g + 1)) := by
  refine List.ext_getElem (by simp) fun g left right => ?_
  simp [List.getElem_tail]

theorem nodeAt_le (op nest g : Nat) : nodeAt op nest g ≤ op := Nat.min_le_right _ _

theorem nodeAt_mono (op nest g : Nat) : nodeAt op nest g ≤ nodeAt op nest (g + 1) := by
  have grows : nest * g ≤ nest * (g + 1) := Nat.mul_le_mul_left nest (Nat.le_succ g)
  simp only [nodeAt]
  omega

theorem nodeAt_step {g : Nat} (positive : 1 ≤ nest) (some : 1 ≤ op) (inside : g ≤ (op - 1) / nest) :
    nodeAt op nest g < nodeAt op nest (g + 1) ∧ nodeAt op nest (g + 1) ≤ nodeAt op nest g + nest ∧
      (g < (op - 1) / nest → nodeAt op nest (g + 1) = nodeAt op nest g + nest) := by
  have below := Nat.mul_div_le (op - 1) nest
  have here : nest * g ≤ nest * ((op - 1) / nest) := Nat.mul_le_mul_left nest inside
  have next : nest * (g + 1) = nest * g + nest := Nat.mul_succ nest g
  refine ⟨?_, ?_, fun earlier => ?_⟩
  · simp only [nodeAt]
    omega
  · simp only [nodeAt]
    omega
  · have later : nest * (g + 1) ≤ nest * ((op - 1) / nest) := Nat.mul_le_mul_left nest earlier
    simp only [nodeAt]
    omega

theorem nodeAt_last (positive : 1 ≤ nest) (some : 1 ≤ op) : nodeAt op nest ((op - 1) / nest + 1) = op := by
  have above := Nat.lt_mul_div_succ (op - 1) (by omega : 0 < nest)
  exact Nat.min_eq_right (by omega)

theorem groups_nodeAt (data : ChainData) (nest count : Nat) :
    groups data ((List.range (count + 1)).map (nodeAt op nest)) =
      (List.range count).map fun g => sliceOps data (nodeAt op nest g) (nodeAt op nest (g + 1)) := by
  rw [groups, zip_tail_range, List.map_map]
  rfl

theorem groups_flatten (sized : data.Sized) (nest count : Nat) :
    ((List.range count).map fun g =>
      sliceOps data (nodeAt data.ops.length nest g) (nodeAt data.ops.length nest (g + 1))).flatten =
      sliceOps data 0 (nodeAt data.ops.length nest count) := by
  induction count with
  | zero => simp [nodeAt_zero, sliceOps_self]
  | succ count ih =>
    rw [List.range_succ, List.map_append, List.flatten_append, ih, List.map_singleton, List.flatten_singleton,
      sliceOps_append sized (Nat.zero_le _) (nodeAt_mono _ _ _) (nodeAt_le _ _ _)]

theorem introducedFirst_of {count : Nat} {line : Nat → Line} (distinct : ch.Nodup) (enough : count < ch.length)
    (first : ∃ name sides, line 0 = .define name (varOf ch 0) (varOf ch 0 :: sides) ∧
      ∀ side ∈ sides, mentions side = [])
    (later : ∀ g < count, ∃ name sides, line (g + 1) = .define name (varOf ch (g + 1)) (varOf ch (g + 1) :: sides) ∧
      ∀ side ∈ sides, ∀ x ∈ mentions side, x = varOf ch g) :
    IntroducedFirst ((List.range (count + 1)).map line) := by
  have introduced (upTo : Nat) (within : upTo ≤ count + 1) :
      variablesOf ((List.range upTo).map line) = (List.range upTo).map (varOf ch) := by
    rw [variablesOf, List.filterMap_map, List.map_filterMap, ← List.filterMap_eq_map]
    refine List.filterMap_congr fun g member => ?_
    have small := List.mem_range.mp member
    cases g with
    | zero =>
      obtain ⟨name, sides, is, _⟩ := first
      simp [is, Line.define]
    | succ g =>
      obtain ⟨name, sides, is, _⟩ := later g (by omega)
      simp [is, Line.define]
  constructor
  · rw [introduced _ le_rfl]
    refine List.nodup_range.map_on fun i left j right same => ?_
    have left := List.mem_range.mp left
    have right := List.mem_range.mp right
    exact varOf_inj distinct (by omega) (by omega) same
  · intro before shown after split
    -- the line's place tells which lines stand before it
    have length := congrArg List.length split
    simp only [List.length_map, List.length_range, List.length_append, List.length_cons] at length
    have here : shown = line before.length := by
      have found : ((List.range (count + 1)).map line)[before.length]? = some shown := by simp [split]
      rw [List.getElem?_map, List.getElem?_range (by omega)] at found
      exact (Option.some.inj found).symm
    have earlier : before = (List.range before.length).map line := by
      have taken : ((List.range (count + 1)).map line).take before.length = before := by simp [split]
      rw [← List.map_take, List.take_range, Nat.min_eq_left (by omega)] at taken
      exact taken.symm
    have known : variablesOf before = (List.range before.length).map (varOf ch) := by
      conv_lhs => rw [earlier]
      exact introduced _ (by omega)
    cases place : before.length with
    | zero =>
      obtain ⟨name, sides, is, none⟩ := first
      refine ⟨name, _, sides, by rw [here, place, is], fun side member x mentioned => ?_⟩
      rw [none side member] at mentioned
      cases mentioned
    | succ g =>
      obtain ⟨name, sides, is, only⟩ := later g (by omega)
      refine ⟨name, _, sides, by rw [here, place, is], fun side member x mentioned => ?_⟩
      rw [only side member x mentioned, known]
      exact List.mem_map_of_mem (List.mem_range.mpr (by omega))

def composedLineAt (ch : List Text) (data : ChainData) (nest : Nat) : Nat → Line
  | 0 => forwardLine ch data 0
  | g + 1 =>
    let q := nodeAt data.ops.length nest (g + 1)
    composedLine ch data g (nodeAt data.ops.length nest g) q (data.value q)

def simplifiedLineAt (ch : List Text) (data : ChainData) (nest : Nat) : Nat → Line
  | 0 => forwardLine ch data 0
  | g + 1 =>
    let q := nodeAt data.ops.length nest (g + 1)
    simplifiedLine ch data g (nodeAt data.ops.length nest g) q (data.value (q - 1))

theorem getElem?_nodeAt {count g : Nat} (within : g < count) :
    ((List.range count).map (nodeAt op nest))[g]? = some (nodeAt op nest g) := by
  rw [List.getElem?_map, List.getElem?_range within]
  rfl

theorem mapM_nodeAt {round : List Nat → Nat → Except PyError Line} (line : Nat → Line)
    (first : ∀ points : List Nat, points[0]? = some 0 → round points 0 = .ok (line 0))
    (later : ∀ (points : List Nat) (g : Nat), g + 1 < count → points[g]? = some (nodeAt op nest g) →
      points[g + 1]? = some (nodeAt op nest (g + 1)) → round points (g + 1) = .ok (line (g + 1))) :
    (List.range ((List.range count).map (nodeAt op nest)).length).mapM
      (round ((List.range count).map (nodeAt op nest))) = .ok ((List.range count).map line) := by
  rw [List.length_map, List.length_range]
  refine mapM_ok fun g member => ?_
  have within := List.mem_range.mp member
  cases g with
  | zero => exact first _ (by rw [getElem?_nodeAt within, nodeAt_zero])
  | succ g => exact later _ g within (getElem?_nodeAt (by omega)) (getElem?_nodeAt within)

theorem composedforwardText_eq (computed : data.Computed mod) (modulus : 1 ≤ mod) (positive : 1 ≤ nest)
    (some : 1 ≤ data.ops.length) (enough : (data.ops.length - 1) / nest + 2 ≤ ch.length) :
    composedforwardText ch data mod nest =
      .ok (solutionText ((List.range ((data.ops.length - 1) / nest + 2)).map (composedLineAt ch data nest))
        (data.value data.ops.length)) := by
  have sized := computed.toSized
  have filled : 0 < ch.length := Nat.lt_of_lt_of_le (Nat.succ_pos _) enough
  rw [composedforwardText, breakpoints_nodeAt positive some, ok_bind,
    mapM_nodeAt (composedLineAt ch data nest) (fun _ first => composedRound_zero sized filled first), ok_bind,
    sized.last_value]
  · rfl
  · intro points g within here next
    exact composedRound_succ sized (by omega) here next (nodeAt_mono _ _ _) (nodeAt_le _ _ _)
      (runOps_slice computed modulus (nodeAt_mono _ _ _) (nodeAt_le _ _ _))

theorem simplifiedforwardText_eq (computed : data.Computed mod) (modulus : 1 ≤ mod) (positive : 1 ≤ nest)
    (some : 1 ≤ data.ops.length) (enough : (data.ops.length - 1) / nest + 2 ≤ ch.length) :
    simplifiedforwardText ch data mod nest =
      .ok (solutionText ((List.range ((data.ops.length - 1) / nest + 2)).map (simplifiedLineAt ch data nest))
        (data.value data.ops.length)) := by
  have sized := computed.toSized
  have filled : 0 < ch.length := Nat.lt_of_lt_of_le (Nat.succ_pos _) enough
  rw [simplifiedforwardText, breakpoints_nodeAt positive some, ok_bind,
    mapM_nodeAt (simplifiedLineAt ch data nest) (fun _ first => simplifiedRound_zero sized filled first),
    ok_bind, sized.last_value]
  · rfl
  · intro points g within here next
    obtain ⟨less, _⟩ := nodeAt_step positive some (by omega : g ≤ (data.ops.length - 1) / nest)
    have last := nodeAt_le data.ops.length nest (g + 1)
    exact simplifiedRound_succ sized (by omega) here next less last
      (runOps_slice computed modulus (by omega) (by omega))

theorem nested_of {means : Text → Text → Nat → Nat → Line → Prop} {line : Nat → Line} (sized : data.Sized)
    (nonneg : 0 ≤ data.value 0) (positive : 1 ≤ nest) (some : 1 ≤ data.ops.length)
    (pool : Pool ch ((data.ops.length - 1) / nest + 2)) (first : line 0 = forwardLine ch data 0)
    (later : ∀ g ≤ (data.ops.length - 1) / nest, ∃ sides,
      line (g + 1) = .define (data.name (nodeAt data.ops.length nest (g + 1))) (varOf ch (g + 1))
        (varOf ch (g + 1) :: sides) ∧ (∀ side ∈ sides, ∀ x ∈ mentions side, x = varOf ch g) ∧
      means (varOf ch g) (varOf ch (g + 1)) (nodeAt data.ops.length nest g)
        (nodeAt data.ops.length nest (g + 1)) (line (g + 1))) :
    Nested means data ch nest ((List.range ((data.ops.length - 1) / nest + 2)).map line) := by
  have enough := pool.enough
  generalize groupCount : (data.ops.length - 1) / nest + 1 = count
  have counted : (data.ops.length - 1) / nest + 2 = count + 1 := by omega
  have groupsAre : groups data ((List.range (count + 1)).map (nodeAt data.ops.length nest)) = _ :=
    groups_nodeAt data nest count
  refine ⟨_, (List.range count).map fun g => line (g + 1), breakpoints_nodeAt positive some, ?_, ?_, ?_, ?_,
    ?_, ?_, ?_⟩
  · rw [counted, List.range_succ_eq_map, List.map_cons, List.map_map, first]
    rfl
  · rw [counted, groupsAre, groups_flatten sized, ← groupCount, nodeAt_last positive some, sliceOps_all sized]
  · intro group member
    rw [counted, groupsAre, ← groupCount, List.range_succ, List.map_append, List.map_singleton,
      List.dropLast_concat] at member
    obtain ⟨g, inside, rfl⟩ := List.mem_map.mp member
    have small := List.mem_range.mp inside
    obtain ⟨_, _, whole⟩ := nodeAt_step positive some small.le
    have size := whole small
    rw [sliceOps_length sized (nodeAt_le _ _ _)]
    omega
  · intro group member
    rw [counted, groupsAre] at member
    obtain ⟨g, inside, rfl⟩ := List.mem_map.mp member
    have small := List.mem_range.mp inside
    obtain ⟨less, most, _⟩ := nodeAt_step positive some (by omega : g ≤ (data.ops.length - 1) / nest)
    have length := @sliceOps_length data (nodeAt data.ops.length nest g) _ sized (nodeAt_le _ nest (g + 1))
    exact ⟨List.length_pos_iff.mp (by omega), by omega⟩
  · rw [counted, groupsAre]
    simp
  · rw [counted]
    refine introducedFirst_of pool.distinct (by omega) ⟨data.name 0, [decimal (data.value 0)], first, ?_⟩ ?_
    · simpa using mentions_decimal nonneg
    · intro g small
      obtain ⟨sides, is, known, _⟩ := later g (by omega)
      exact ⟨_, sides, is, known⟩
  · intro g p q here next
    have small : g + 1 < (data.ops.length - 1) / nest + 2 := by
      have inside := (List.getElem?_eq_some_iff.mp next).1
      simpa using inside
    rw [getElem?_nodeAt (by omega)] at here
    rw [getElem?_nodeAt small] at next
    obtain rfl := Option.some.inj here
    obtain rfl := Option.some.inj next
    obtain ⟨sides, _, _, meaning⟩ := later g (by omega)
    refine ⟨line (g + 1), ?_, meaning⟩
    rw [List.getElem?_map, List.getElem?_range (by omega)]
    rfl

theorem sliceOps_nonneg (follows : data.Follows mod) {p q : Nat} (ordered : p ≤ q)
    (within : q ≤ data.ops.length) : ∀ entry ∈ sliceOps data p q, 0 ≤ entry.2 := by
  induction ordered using Nat.decreasingInduction with
  | self => simp [sliceOps_self]
  | of_succ p less later =>
    rw [sliceOps_cons follows.toSized less within]
    exact List.forall_mem_cons.mpr ⟨follows.const_nonneg (by omega), later⟩

theorem composedLine_means (follows : data.Follows mod) (modulus : 1 ≤ mod) {g p q : Nat}
    (named : IsName (varOf ch g)) (ordered : p ≤ q) (within : q ≤ data.ops.length) :
    (∃ sides, composedLine ch data g p q (data.value q) =
      .define (data.name q) (varOf ch (g + 1)) (varOf ch (g + 1) :: sides) ∧
      ∀ side ∈ sides, ∀ x ∈ mentions side, x = varOf ch g) ∧
    ComposedMeans data mod (varOf ch g) (varOf ch (g + 1)) p q (composedLine ch data g p q (data.value q)) := by
  have constants := sliceOps_nonneg follows ordered within
  have nonneg := follows.value_nonneg modulus (ordered.trans within)
  have number : (Tree.single (.number (data.value p).natAbs)).text = decimal (data.value p) :=
    decimal_natAbs nonneg
  have literal : (((data.value p).natAbs : Nat) : Int) = data.value p := Int.natAbs_of_nonneg nonneg
  constructor
  · refine ⟨_, rfl, ?_⟩
    simp only [List.forall_mem_cons]
    refine ⟨fun x member => ?_, fun x member => ?_, fun x member => ?_, by simp⟩
    · have single : (Tree.single (.name (varOf ch g))).Names fun x => IsName x ∧ x = varOf ch g := ⟨named, rfl⟩
      exact mentions_growExpression constants single x member
    · rw [← number] at member
      have none : (Tree.single (.number (data.value p).natAbs)).Names fun x => IsName x ∧ False := trivial
      exact (mentions_growExpression constants none x member).elim
    · rw [mentions_decimal (follows.value_nonneg modulus within)] at member
      cases member
  · refine ⟨_, _, rfl, fun env known => ?_, fun env => ?_,
      runOps_modEq (runOps_slice follows.computed modulus ordered within)⟩
    · have single : (Tree.single (.name (varOf ch g))).Names fun x => IsName x ∧ env x = some (data.value p) :=
        ⟨named, known⟩
      exact evaluate_growExpression (fun _ => data.value p) constants single
    · have none : (Tree.single (.number (data.value p).natAbs)).Names fun x => IsName x ∧ env x = some 0 := trivial
      have value := evaluate_growExpression (fun _ => 0) constants none
      rwa [number, Tree.denote, Tree.denote, literal] at value

theorem simplifiedLine_of_single (sized : data.Sized) {g p : Nat} (within : p + 1 ≤ data.ops.length) (curr : Int) :
    simplifiedLine ch data g p (p + 1) curr = composedLine ch data g p (p + 1) (data.value (p + 1)) := by
  have slice : sliceOps data p (p + 1) = [(data.op p, data.const p)] := by
    rw [sliceOps_concat sized le_rfl within, sliceOps_self, List.nil_append]
  rw [simplifiedLine, if_pos rfl, composedLine, slice]
  simp [growExpression]

theorem simplifiedLine_means (follows : data.Follows mod) (modulus : 1 ≤ mod) {g p q : Nat}
    (named : IsName (varOf ch g)) (ordered : p < q) (within : q ≤ data.ops.length) :
    (∃ sides, simplifiedLine ch data g p q (data.value (q - 1)) =
      .define (data.name q) (varOf ch (g + 1)) (varOf ch (g + 1) :: sides) ∧
      ∀ side ∈ sides, ∀ x ∈ mentions side, x = varOf ch g) ∧
    SimplifiedMeans data mod (varOf ch g) (varOf ch (g + 1)) p q
      (simplifiedLine ch data g p q (data.value (q - 1))) := by
  rcases Nat.lt_or_eq_of_le ordered with several | single
  · obtain ⟨last, rfl⟩ := Nat.exists_eq_add_of_lt ordered
    have nonneg := follows.value_nonneg modulus (by omega : p + last ≤ data.ops.length)
    have number : (Tree.single (.number (data.value (p + last)).natAbs)).text = decimal (data.value (p + last)) :=
      decimal_natAbs nonneg
    have literal : (((data.value (p + last)).natAbs : Nat) : Int) = data.value (p + last) :=
      Int.natAbs_of_nonneg nonneg
    have constant := follows.const_nonneg (by omega : p + last < data.ops.length)
    have text : opText (decimal (data.value (p + last))) (data.op (p + last)) (data.const (p + last)) =
        (opTree (.single (.number (data.value (p + last)).natAbs)) (data.op (p + last))
          (data.const (p + last)).natAbs).text := by
      rw [opTree_text, Int.natAbs_of_nonneg constant, number]
    have step := follows.form_value (by omega : p + last < data.ops.length)
    rw [Op.form_apply] at step
    rw [simplifiedLine, if_neg (by omega), Nat.add_sub_cancel]
    refine ⟨⟨_, rfl, ?_⟩, .inr ⟨by omega, _, rfl, fun env => ?_,
      runOps_modEq (runOps_slice follows.computed modulus (by omega) (by omega)), step⟩⟩
    · simp only [List.forall_mem_cons]
      refine ⟨fun x member => ?_, fun x member => ?_, by simp⟩
      · rw [text] at member
        have none : (opTree (.single (.number (data.value (p + last)).natAbs)) (data.op (p + last))
            (data.const (p + last)).natAbs).Names fun x => IsName x ∧ False :=
          opTree_names (number_names _) _ _
        exact (Expression.mentions_text _ none x member).elim
      · rw [mentions_decimal (follows.value_nonneg modulus within)] at member
        cases member
    · have none : (opTree (.single (.number (data.value (p + last)).natAbs)) (data.op (p + last))
          (data.const (p + last)).natAbs).Names fun x => IsName x ∧ env x = some 0 :=
          opTree_names (number_names _) _ _
      rw [Nat.add_sub_cancel, text, Expression.evaluate_text (fun _ => 0) _ none, opTree_denote, Tree.denote,
        Tree.denote, literal, Int.natAbs_of_nonneg constant]
  · obtain rfl : q = p + 1 := single.symm
    rw [simplifiedLine_of_single follows.toSized within]
    obtain ⟨shape, meaning⟩ := composedLine_means follows modulus named ordered.le within
    exact ⟨shape, .inl ⟨rfl, meaning⟩⟩

-- Composed and simplified solutions tell the chain group by group: the groups are the operations in
-- order, every line rests on the line before it, and what it shows is the group's computation.
theorem nested_means {maxNest : Int} (two : 2 ≤ data.ops.length) (positive : 1 ≤ maxNest) (modulus : 1 ≤ mod)
    (pool : Pool vars ((data.ops.length - 1) / maxNest.toNat + 2)) (follows : data.Follows mod) :
    ((composedforwardSolution vars data mod maxNest).Safe ∧
      ∀ text, (composedforwardSolution vars data mod maxNest).Returns text → ∃ ch lines, ch.Perm vars ∧
        text = solutionText lines (data.value data.ops.length) ∧
        Nested (ComposedMeans data mod) data ch maxNest lines) ∧
    ((simplifiedforwardSolution vars data mod maxNest).Safe ∧
      ∀ text, (simplifiedforwardSolution vars data mod maxNest).Returns text → ∃ ch lines, ch.Perm vars ∧
        text = solutionText lines (data.value data.ops.length) ∧
        Nested (SimplifiedMeans data mod) data ch maxNest lines) := by
  obtain ⟨nest, rfl⟩ := Int.eq_ofNat_of_zero_le (by omega : 0 ≤ maxNest)
  rw [Int.toNat_natCast] at pool
  have one : 1 ≤ nest := by omega
  have sized := follows.toSized
  have composed (ch : List Text) (perm : ch.Perm vars) :=
    composedforwardText_eq follows.computed modulus one (by omega) (pool.perm perm).enough
  have simplified (ch : List Text) (perm : ch.Perm vars) :=
    simplifiedforwardText_eq follows.computed modulus one (by omega) (pool.perm perm).enough
  rw [composedforwardSolution, simplifiedforwardSolution, if_neg (by omega), if_neg (by omega)]
  constructor
  · refine shuffled_all fun ch perm => ⟨_, composed ch perm, ch, _, perm, rfl,
      nested_of sized follows.first_nonneg one (by omega) (pool.perm perm) rfl fun g small => ?_⟩
    obtain ⟨⟨sides, is, known⟩, meaning⟩ := composedLine_means follows modulus
      ((pool.perm perm).varOf_named (by omega : g < _)) (nodeAt_mono data.ops.length nest g) (nodeAt_le _ _ _)
    exact ⟨sides, is, known, meaning⟩
  · refine shuffled_all fun ch perm => ⟨_, simplified ch perm, ch, _, perm, rfl,
      nested_of sized follows.first_nonneg one (by omega) (pool.perm perm) rfl fun g small => ?_⟩
    obtain ⟨less, _⟩ := nodeAt_step one (by omega : 1 ≤ data.ops.length) small
    obtain ⟨⟨sides, is, known⟩, meaning⟩ := simplifiedLine_means follows modulus
      ((pool.perm perm).varOf_named (by omega : g < _)) less (nodeAt_le _ _ _)
    exact ⟨sides, is, known, meaning⟩

theorem nested_means_pair : ∃ ch lines, ch.Perm variableNames ∧
    (composedforwardSolution variableNames pairChain 5 2).Returns (solutionText lines 1) ∧
      Nested (ComposedMeans pairChain 5) pairChain ch 2 lines := by
  obtain ⟨⟨safe, composed⟩, _⟩ := nested_means (by decide : 2 ≤ pairChain.ops.length) (by decide : (1 : Int) ≤ 2)
    (by decide : (1 : Int) ≤ 5) (variablePool (by decide)) pairChain_follows
  obtain ⟨text, returned⟩ := exists_returns safe
  obtain ⟨ch, lines, perm, rfl, nested⟩ := composed text returned
  exact ⟨ch, lines, perm, returned, nested⟩

end Meaning

section NestingOne

variable {ch vars : List Text} {data : ChainData} {mod : Int}

theorem composedLine_single (sized : data.Sized) {g : Nat} (within : g + 1 ≤ data.ops.length) :
    composedLine ch data g g (g + 1) (data.value (g + 1)) = forwardLine ch data (g + 1) := by
  have slice : sliceOps data g (g + 1) = [(data.op g, data.const g)] := by
    rw [sliceOps_concat sized le_rfl within, sliceOps_self, List.nil_append]
  rw [composedLine, slice, forwardLine, if_neg (Nat.succ_ne_zero g)]
  simp [growExpression]

theorem simplifiedLine_single {g : Nat} :
    simplifiedLine ch data g g (g + 1) (data.value g) = forwardLine ch data (g + 1) := by
  rw [simplifiedLine, if_pos rfl, forwardLine, if_neg (Nat.succ_ne_zero g)]
  simp

theorem nodeAt_one {op g : Nat} (within : g ≤ op) : nodeAt op 1 g = g := by
  rw [nodeAt, Nat.one_mul, Nat.min_eq_left within]

theorem normalforwardText_ok (sized : data.Sized) (enough : data.ops.length + 1 ≤ ch.length) :
    normalforwardText ch data = .ok (solutionText ((List.range (data.ops.length + 1)).map (forwardLine ch data))
      (data.value data.ops.length)) := by
  rw [normalforwardText, normalforwardLines_eq sized enough, sized.last_value]
  rfl

theorem composedforwardText_one (computed : data.Computed mod) (modulus : 1 ≤ mod)
    (enough : data.ops.length + 1 ≤ ch.length) (some : 1 ≤ data.ops.length) :
    composedforwardText ch data mod 1 = normalforwardText ch data := by
  have sized := computed.toSized
  have count : (data.ops.length - 1) / 1 + 2 = data.ops.length + 1 := by omega
  have composed := composedforwardText_eq computed modulus le_rfl some (by rwa [count])
  rw [Nat.cast_one, count] at composed
  rw [composed, normalforwardText_ok sized enough]
  refine congrArg (fun lines => Except.ok (solutionText lines (data.value data.ops.length)))
    (List.map_congr_left fun g member => ?_)
  have within := List.mem_range.mp member
  cases g with
  | zero => rfl
  | succ g =>
    rw [composedLineAt, nodeAt_one (by omega), nodeAt_one (by omega)]
    exact composedLine_single sized (by omega)

theorem simplifiedforwardText_one (computed : data.Computed mod) (modulus : 1 ≤ mod)
    (enough : data.ops.length + 1 ≤ ch.length) (some : 1 ≤ data.ops.length) :
    simplifiedforwardText ch data mod 1 = normalforwardText ch data := by
  have count : (data.ops.length - 1) / 1 + 2 = data.ops.length + 1 := by omega
  have simplified := simplifiedforwardText_eq computed modulus le_rfl some (by rwa [count])
  rw [Nat.cast_one, count] at simplified
  rw [simplified, normalforwardText_ok computed.toSized enough]
  refine congrArg (fun lines => Except.ok (solutionText lines (data.value data.ops.length)))
    (List.map_congr_left fun g member => ?_)
  have within := List.mem_range.mp member
  cases g with
  | zero => rfl
  | succ g =>
    rw [simplifiedLineAt, nodeAt_one (by omega), nodeAt_one (by omega)]
    exact simplifiedLine_single

-- With groups of one operation both solutions are the explicit one, letter by letter.
theorem nestingOne_explicit {σ : Type} (positive : 1 ≤ mod) (computed : data.Computed mod)
    (enough : data.ops.length + 1 ≤ vars.length) (machine : Prog.Machine random σ) (state : σ) :
    ∃ s later, (normalforwardSolution vars data).run machine state = (.ok s, later) ∧
      (composedforwardSolution vars data mod 1).run machine state = (.ok s, later) ∧
      (simplifiedforwardSolution vars data mod 1).run machine state = (.ok s, later) := by
  have long (ch : List Text) (perm : ch.Perm vars) : data.ops.length + 1 ≤ ch.length := by
    rwa [perm.length_eq]
  obtain ⟨ch, later, perm, shuffled⟩ := run_shuffle machine vars state
  obtain ⟨s, normal⟩ : ∃ s, (normalforwardSolution vars data).run machine state = (.ok s, later) := by
    rw [normalforwardSolution, Prog.run_bind, shuffled]
    simp only [run_ofExcept, normalforwardText_ok computed.toSized (long ch perm)]
    exact ⟨_, rfl⟩
  refine ⟨s, later, normal, ?_, ?_⟩
  · rw [← normal, composedforwardSolution, normalforwardSolution]
    split
    · rfl
    · exact run_shuffled_congr (fun ch perm =>
        composedforwardText_one computed positive (long ch perm) (by omega)) machine state
  · rw [← normal, simplifiedforwardSolution, normalforwardSolution]
    split
    · rfl
    · exact run_shuffled_congr (fun ch perm =>
        simplifiedforwardText_one computed positive (long ch perm) (by omega)) machine state

theorem nestingOne_explicit_pair : ∃ s, (normalforwardSolution variableNames pairChain).Returns s ∧
    (composedforwardSolution variableNames pairChain 5 1).Returns s ∧
      (simplifiedforwardSolution variableNames pairChain 5 1).Returns s := by
  have enough : pairChain.ops.length + 1 ≤ variableNames.length := by
    rw [variableNames_length]
    decide
  obtain ⟨s, later, normal, composed, simplified⟩ := nestingOne_explicit (by decide : (1 : Int) ≤ 5)
    pairChain_follows.computed enough leastAnswers ()
  exact ⟨s, Prog.returns_of_run (congrArg Prod.fst normal), Prog.returns_of_run (congrArg Prod.fst composed),
    Prog.returns_of_run (congrArg Prod.fst simplified)⟩

end NestingOne

end CotCompression
