import CotCompression.Generator.Lines

set_option autoImplicit false

namespace CotCompression

open Program (Prog)
open Text (lit decimal)

-- One pass of the loop of normalforward_solution.
def normalforwardRound (ch : List Text) (data : ChainData) (i : Nat) : Except PyError Line := do
  let var ← pop ch i
  let name ← item data.chainNames i
  if i = 0 then
    let value ← item data.values 0
    return .define name var [var, decimal value]
  else
    let pv ← pop ch (i - 1)
    let opSym ← item data.ops (i - 1)
    let c ← item data.constants (i - 1)
    let prevVal ← item data.values (i - 1)
    let newVal ← item data.values i
    return .define name var
      [var, opText pv opSym c, opText (decimal prevVal) opSym c, decimal newVal]

def normalforwardText (ch : List Text) (data : ChainData) : Except PyError Text := do
  let parts ← (List.range data.values.length).mapM (normalforwardRound ch data)
  let answer ← lastItem data.values
  return solutionText parts answer

def normalforwardSolution (vars : List Text) (data : ChainData) : Py Text := do
  let ch ← shuffle vars
  .ofExcept (normalforwardText ch data)

-- breakpoints of the composed and simplified solutions: 0, the multiples of max_nest below op
-- (none for a negative step) and op.
def breakpoints (op : Nat) (maxNest : Int) : Except PyError (List Nat) := do
  let inner ← pyRange maxNest op maxNest
  let points := 0 :: inner.map Int.toNat
  return if points.getLast? = some op then points else points ++ [op]

-- An expression grown one operation at a time, bracketed before a product that follows a sum.
def growExpression : Text → Bool → List (Op × Int) → Text
  | expr, _, [] => expr
  | expr, needsParens, (o, c) :: rest =>
      let expr := if o = .mul ∧ needsParens = true then parens expr else expr
      let needsParens := if o = .mul then false else true
      growExpression (opText expr o c) needsParens rest

-- curr, after the operations given
def runOps (mod : Int) : Int → List (Op × Int) → Except PyError Int
  | curr, [] => .ok curr
  | curr, (o, c) :: rest => do
      let curr ← pyMod (o.apply curr c) mod
      runOps mod curr rest

def sliceOps (data : ChainData) (start stop : Nat) : List (Op × Int) :=
  ((data.ops.drop start).take (stop - start)).zip ((data.constants.drop start).take (stop - start))

def composedRound (ch : List Text) (data : ChainData) (mod : Int) (points : List Nat) (g : Nat) :
    Except PyError Line := do
  let bp ← item points g
  let var ← pop ch g
  let name ← item data.chainNames bp
  if g = 0 then
    let value ← item data.values 0
    return .define name var [var, decimal value]
  else
    let bpPrev ← item points (g - 1)
    -- var_map[bp_prev], set in the pass before
    let prevVar ← pop ch (g - 1)
    let prevVal ← item data.values bpPrev
    let slice := sliceOps data bpPrev bp
    let exprVar := growExpression prevVar false slice
    let exprVal := growExpression (decimal prevVal) false slice
    let curr ← runOps mod prevVal slice
    return .define name var [var, exprVar, exprVal, decimal curr]

def composedforwardText (ch : List Text) (data : ChainData) (mod maxNest : Int) :
    Except PyError Text := do
  let points ← breakpoints data.ops.length maxNest
  let parts ← (List.range points.length).mapM (composedRound ch data mod points)
  let answer ← lastItem data.values
  return solutionText parts answer

def composedforwardSolution (vars : List Text) (data : ChainData) (mod maxNest : Int) : Py Text :=
  if data.ops.length ≤ 1 then normalforwardSolution vars data
  else do
    let ch ← shuffle vars
    .ofExcept (composedforwardText ch data mod maxNest)

def simplifiedRound (ch : List Text) (data : ChainData) (mod : Int) (points : List Nat) (g : Nat) :
    Except PyError Line := do
  let bp ← item points g
  let var ← pop ch g
  let name ← item data.chainNames bp
  if g = 0 then
    let value ← item data.values 0
    return .define name var [var, decimal value]
  else
    let bpPrev ← item points (g - 1)
    let prevVar ← pop ch (g - 1)
    let prevVal ← item data.values bpPrev
    let slice := sliceOps data bpPrev bp
    let (lastOp, lastConst) ← lastItem slice
    let result ← item data.values bp
    if slice.length = 1 then
      return .define name var
        [var, opText prevVar lastOp lastConst, opText (decimal prevVal) lastOp lastConst, decimal result]
    else
      let curr ← runOps mod prevVal slice.dropLast
      return .define name var [var, opText (decimal curr) lastOp lastConst, decimal result]

def simplifiedforwardText (ch : List Text) (data : ChainData) (mod maxNest : Int) :
    Except PyError Text := do
  let points ← breakpoints data.ops.length maxNest
  let parts ← (List.range points.length).mapM (simplifiedRound ch data mod points)
  let answer ← lastItem data.values
  return solutionText parts answer

def simplifiedforwardSolution (vars : List Text) (data : ChainData) (mod maxNest : Int) : Py Text :=
  if data.ops.length ≤ 1 then normalforwardSolution vars data
  else do
    let ch ← shuffle vars
    .ofExcept (simplifiedforwardText ch data mod maxNest)

-- breakpoints of the implicit solution, which compares max_nest with op first.
def implicitBreakpoints (op : Nat) (maxNest : Int) : Except PyError (List Nat) :=
  if (op : Int) ≤ maxNest then .ok [0, op] else breakpoints op maxNest

def implicitRound (data : ChainData) (points : List Nat) (g : Nat) : Except PyError Line := do
  let bp ← item points g
  if g = 0 then
    let name ← item data.chainNames 0
    let value ← item data.values 0
    return .equation [name, decimal value]
  else
    let newVal ← item data.values bp
    let name ← item data.chainNames bp
    return .equation [name, decimal newVal]

def implicitSolution (data : ChainData) (maxNest : Int) : Except PyError Text := do
  let points ← implicitBreakpoints data.ops.length maxNest
  let parts ← (List.range points.length).mapM (implicitRound data points)
  let answer ← lastItem data.values
  return solutionText parts answer

section Slices

variable {data : ChainData} {p q : Nat}

theorem sliceOps_self (data : ChainData) (p : Nat) : sliceOps data p p = [] := by
  simp [sliceOps]

theorem sliceOps_cons (sized : data.Sized) (less : p < q) (within : q ≤ data.ops.length) :
    sliceOps data p q = (data.op p, data.const p) :: sliceOps data (p + 1) q := by
  have constants := sized.constants
  obtain ⟨count, rfl⟩ := Nat.exists_eq_add_of_lt less
  have ops : data.ops.drop p = data.op p :: data.ops.drop (p + 1) := by
    rw [List.drop_eq_getElem_cons (by omega), ChainData.op, List.getD_eq_getElem?_getD,
      List.getElem?_eq_getElem (by omega)]
    rfl
  have consts : data.constants.drop p = data.const p :: data.constants.drop (p + 1) := by
    rw [List.drop_eq_getElem_cons (by omega), ChainData.const, List.getD_eq_getElem?_getD,
      List.getElem?_eq_getElem (by omega)]
    rfl
  rw [sliceOps, sliceOps, ops, consts, show p + count + 1 - p = count + 1 by omega,
    show p + count + 1 - (p + 1) = count by omega]
  rfl

theorem sliceOps_length (sized : data.Sized) (within : q ≤ data.ops.length) :
    (sliceOps data p q).length = q - p := by
  have constants := sized.constants
  simp only [sliceOps, List.length_zip, List.length_take, List.length_drop]
  omega

theorem sliceOps_append {r : Nat} (sized : data.Sized) (left : p ≤ q) (right : q ≤ r)
    (within : r ≤ data.ops.length) : sliceOps data p q ++ sliceOps data q r = sliceOps data p r := by
  induction left using Nat.decreasingInduction with
  | self => rw [sliceOps_self, List.nil_append]
  | of_succ p less later =>
    rw [sliceOps_cons sized less (by omega), sliceOps_cons sized (by omega : p < r) within, List.cons_append,
      later]

theorem sliceOps_concat (sized : data.Sized) (ordered : p ≤ q) (within : q + 1 ≤ data.ops.length) :
    sliceOps data p (q + 1) = sliceOps data p q ++ [(data.op q, data.const q)] := by
  rw [← sliceOps_append sized ordered (Nat.le_succ q) within, sliceOps_cons sized (Nat.lt_succ_self q) within,
    sliceOps_self]

theorem sliceOps_all (sized : data.Sized) : sliceOps data 0 data.ops.length = data.ops.zip data.constants := by
  simp [sliceOps, sized.constants, List.take_of_length_le]

end Slices

section Rounds

variable {ch : List Text} {data : ChainData} {mod : Int}

def forwardLine (ch : List Text) (data : ChainData) (i : Nat) : Line :=
  if i = 0 then .define (data.name 0) (varOf ch 0) [varOf ch 0, decimal (data.value 0)]
  else .define (data.name i) (varOf ch i)
    [varOf ch i, opText (varOf ch (i - 1)) (data.op (i - 1)) (data.const (i - 1)),
      opText (decimal (data.value (i - 1))) (data.op (i - 1)) (data.const (i - 1)),
      decimal (data.value i)]

theorem normalforwardRound_eq (sized : data.Sized) (enough : data.ops.length + 1 ≤ ch.length) {i : Nat}
    (within : i ≤ data.ops.length) : normalforwardRound ch data i = .ok (forwardLine ch data i) := by
  rw [normalforwardRound, pop_ok (by omega), sized.item_name within, ok_bind, ok_bind]
  by_cases first : i = 0
  · subst first
    rw [if_pos rfl, sized.item_value (by omega)]
    rfl
  · rw [if_neg first, pop_ok (by omega), ChainData.item_op (by omega),
      sized.item_const (by omega), sized.item_value (by omega), sized.item_value within]
    simp only [ok_bind, forwardLine, if_neg first]
    rfl

theorem normalforwardLines_eq (sized : data.Sized) (enough : data.ops.length + 1 ≤ ch.length) :
    (List.range data.values.length).mapM (normalforwardRound ch data) =
      .ok ((List.range (data.ops.length + 1)).map (forwardLine ch data)) := by
  rw [sized.values]
  exact mapM_ok fun i member =>
    normalforwardRound_eq sized enough (by have := List.mem_range.mp member; omega)

variable {points : List Nat} {g p q : Nat} {curr : Int}

theorem item_of_getElem? {α : Type} {xs : List α} {index : Nat} {x : α} (found : xs[index]? = some x) :
    item xs index = .ok x := by
  rw [item, found]

theorem composedRound_zero (sized : data.Sized) (enough : 0 < ch.length) (first : points[0]? = some 0) :
    composedRound ch data mod points 0 = .ok (forwardLine ch data 0) := by
  rw [composedRound, item_of_getElem? first, pop_ok enough, ok_bind, ok_bind,
    sized.item_name (Nat.zero_le _), ok_bind, if_pos rfl, sized.item_value (Nat.zero_le _)]
  rfl

theorem simplifiedRound_zero (sized : data.Sized) (enough : 0 < ch.length) (first : points[0]? = some 0) :
    simplifiedRound ch data mod points 0 = .ok (forwardLine ch data 0) := by
  rw [simplifiedRound, item_of_getElem? first, pop_ok enough, ok_bind, ok_bind,
    sized.item_name (Nat.zero_le _), ok_bind, if_pos rfl, sized.item_value (Nat.zero_le _)]
  rfl

-- The line for the operations from node `p` to node `q`, the (g + 1)-th group; `curr` is what the
-- loop over them computed.
def composedLine (ch : List Text) (data : ChainData) (g p q : Nat) (curr : Int) : Line :=
  .define (data.name q) (varOf ch (g + 1))
    [varOf ch (g + 1), growExpression (varOf ch g) false (sliceOps data p q),
      growExpression (decimal (data.value p)) false (sliceOps data p q), decimal curr]

theorem composedRound_succ (sized : data.Sized) (enough : g + 1 < ch.length) (here : points[g]? = some p)
    (next : points[g + 1]? = some q) (ordered : p ≤ q) (within : q ≤ data.ops.length)
    (ran : runOps mod (data.value p) (sliceOps data p q) = .ok curr) :
    composedRound ch data mod points (g + 1) = .ok (composedLine ch data g p q curr) := by
  rw [composedRound, item_of_getElem? next, pop_ok enough, ok_bind, ok_bind, sized.item_name within]
  simp only [ok_bind, Nat.add_sub_cancel, if_neg (Nat.succ_ne_zero g)]
  rw [item_of_getElem? here, pop_ok (by omega), ok_bind, ok_bind, sized.item_value (ordered.trans within)]
  simp only [ok_bind, ran]
  rfl

-- As above; the line of a single operation shows it, the line of several shows the last.
def simplifiedLine (ch : List Text) (data : ChainData) (g p q : Nat) (curr : Int) : Line :=
  .define (data.name q) (varOf ch (g + 1))
    (if q = p + 1 then
      [varOf ch (g + 1), opText (varOf ch g) (data.op p) (data.const p),
        opText (decimal (data.value p)) (data.op p) (data.const p), decimal (data.value q)]
    else
      [varOf ch (g + 1), opText (decimal curr) (data.op (q - 1)) (data.const (q - 1)), decimal (data.value q)])

theorem simplifiedRound_succ (sized : data.Sized) (enough : g + 1 < ch.length) (here : points[g]? = some p)
    (next : points[g + 1]? = some q) (ordered : p < q) (within : q ≤ data.ops.length)
    (ran : runOps mod (data.value p) (sliceOps data p (q - 1)) = .ok curr) :
    simplifiedRound ch data mod points (g + 1) = .ok (simplifiedLine ch data g p q curr) := by
  obtain ⟨last, rfl⟩ := Nat.exists_eq_succ_of_ne_zero (by omega : q ≠ 0)
  have slice := sliceOps_concat sized (by omega : p ≤ last) within
  have length : (sliceOps data p (last + 1)).length = last + 1 - p := sliceOps_length sized within
  rw [Nat.succ_eq_add_one] at *
  rw [simplifiedRound, item_of_getElem? next, pop_ok enough, ok_bind, ok_bind, sized.item_name within]
  simp only [ok_bind, Nat.add_sub_cancel, if_neg (Nat.succ_ne_zero g)]
  rw [item_of_getElem? here, pop_ok (by omega), ok_bind, ok_bind, sized.item_value (by omega),
    sized.item_value within]
  have found : lastItem (sliceOps data p (last + 1)) = .ok (data.op last, data.const last) := by
    rw [slice, lastItem, List.getLast?_concat]
  simp only [ok_bind, found, length, simplifiedLine]
  by_cases one : last = p
  · subst one
    rw [if_pos (by omega), if_pos rfl]
    rfl
  · rw [if_neg (by omega), if_neg (by omega), slice, List.dropLast_concat]
    rw [Nat.add_sub_cancel] at ran
    simp only [ran, ok_bind, Nat.add_sub_cancel]
    rfl

end Rounds

end CotCompression
