import CotCompression.Generator.Names
import CotCompression.Generator.Python
import CotCompression.Shared.Affine

set_option autoImplicit false

namespace CotCompression

open Program (Prog)
open Text (lit decimal)

inductive Op where
  | add
  | sub
  | mul
  deriving DecidableEq

namespace Op

def symbol : Op → Text
  | add => lit "+"
  | sub => lit "-"
  | mul => lit "*"

def word : Op → Text
  | add => lit "plus"
  | sub => lit "minus"
  | mul => lit "times"

def apply : Op → Int → Int → Int
  | add, x, c => x + c
  | sub, x, c => x - c
  | mul, x, c => x * c

-- The operation with its constant, as a map of the value it is applied to.
def form : Op → Int → Affine Int
  | add, c => ⟨1, c⟩
  | sub, c => ⟨1, -c⟩
  | mul, c => ⟨c, 0⟩

theorem form_apply (o : Op) (x c : Int) : (o.form c).apply x = o.apply x c := by
  cases o <;> simp [form, Affine.apply, apply] <;> ring

end Op

/-- The dict generate_chain returns. -/
structure ChainData where
  chainNames : List Text
  values : List Int
  constants : List Int
  ops : List Op
  problemText : Text
  questionText : Text
  deriving DecidableEq

namespace ChainData

def name (data : ChainData) (index : Nat) : Text := data.chainNames.getD index []

def value (data : ChainData) (index : Nat) : Int := data.values.getD index 0

def const (data : ChainData) (index : Nat) : Int := data.constants.getD index 0

def op (data : ChainData) (index : Nat) : Op := data.ops.getD index .add

def forms (data : ChainData) (start stop : Nat) : List (Affine Int) :=
  (List.range' start (stop - start)).map fun index => (data.op index).form (data.const index)

structure Sized (data : ChainData) : Prop where
  names : data.chainNames.length = data.ops.length + 1
  values : data.values.length = data.ops.length + 1
  constants : data.constants.length = data.ops.length

structure Follows (data : ChainData) (mod : Int) : Prop extends Sized data where
  first_nonneg : 0 ≤ data.value 0
  constants_pos : ∀ index < data.ops.length, 1 ≤ data.const index
  step : ∀ index < data.ops.length,
    data.value (index + 1) = (data.op index).apply (data.value index) (data.const index) % mod

end ChainData

structure Step where
  op : Op
  const : Int
  value : Int
  deriving DecidableEq

-- The loop over range(op); `last` is values[-1].
def chainSteps (numberRange mod : Int) : Nat → Int → Py (List Step)
  | 0, _ => pure []
  | count + 1, last => do
    let o ← choice [Op.add, Op.sub, Op.mul]
    let c ← randint (if o = .mul then 2 else 1) (numberRange - 1)
    let v ← Prog.ofExcept (pyMod (o.apply last c) mod)
    let rest ← chainSteps numberRange mod count v
    return ⟨o, c, v⟩ :: rest

def literalSentence (name : Text) (value : Int) : Text :=
  lit "The number of " ++ name ++ lit " equals " ++ decimal value

def operationSentence (name reference : Text) (o : Op) (c : Int) : Text :=
  lit "The number of " ++ name ++ lit " equals the number of " ++ reference ++ lit " " ++ o.word ++
    lit " " ++ decimal c

def chainSentence (names : List Text) (constants : List Int) (ops : List Op) (index : Nat) :
    Except PyError Text := do
  let o ← item ops index
  let name ← item names (index + 1)
  let reference ← item names index
  let c ← item constants index
  return operationSentence name reference o c

def chainSentences (names : List Text) (values constants : List Int) (ops : List Op) (op : Int) :
    Except PyError (List Text) := do
  let firstName ← item names 0
  let firstValue ← item values 0
  let rest ← (List.range op.toNat).mapM (chainSentence names constants ops)
  return literalSentence firstName firstValue :: rest

def noiseSentences (numberRange : Int) : List Text → Py (List Text)
  | [] => pure []
  | name :: names => do
    let value ← randint 1 (numberRange - 1)
    let rest ← noiseSentences numberRange names
    return literalSentence name value :: rest

-- The noise count generate_chain settles on after looking at the size of the name pool.
def clampNoise (op numNoise : Int) : Int :=
  if op + 1 + numNoise > nodeNames.length then nodeNames.length - op - 1 else numNoise

def generateChain (op numberRange mod : Int) : Py ChainData := do
  let drawn ← randint 1 (max 2 op)
  let numNoise := clampNoise op drawn
  let selected ← sample nodeNames (op + 1 + numNoise)
  let chainNames := sliceTo selected (op + 1)
  let noiseNames := sliceFrom selected (op + 1)
  let first ← randint 1 (numberRange - 1)
  let steps ← chainSteps numberRange mod op.toNat first
  let values := first :: steps.map Step.value
  let constants := steps.map Step.const
  let ops := steps.map Step.op
  let chain ← Prog.ofExcept (chainSentences chainNames values constants ops op)
  let noise ← noiseSentences numberRange noiseNames
  let sentences ← shuffle (chain ++ noise)
  let problemText := Text.join (lit ". ") sentences ++ lit "."
  let lastName ← Prog.ofExcept (lastItem chainNames)
  let questionText := lit "What is the number of " ++ lastName ++ lit "?"
  return { chainNames, values, constants, ops, problemText, questionText }

def StepsFrom (mod : Int) : Int → List Step → Prop
  | _, [] => True
  | last, s :: rest =>
      1 ≤ s.const ∧ pyMod (s.op.apply last s.const) mod = .ok s.value ∧ StepsFrom mod s.value rest

theorem chainSteps_returns {numberRange mod last : Int} {count : Nat} {steps : List Step}
    (returned : (chainSteps numberRange mod count last).Returns steps) :
    steps.length = count ∧ StepsFrom mod last steps := by
  induction count generalizing last steps with
  | zero =>
    obtain rfl := (Prog.returns_pure _ _).mp returned
    exact ⟨rfl, trivial⟩
  | succ count ih =>
    simp only [chainSteps, Prog.returns_bind, Prog.returns_pure, Prog.returns_ofExcept] at returned
    obtain ⟨o, _, c, drawn, v, made, rest, later, rfl⟩ := returned
    have tail := ih later
    have low := (returns_randint.mp drawn).1
    have low : 1 ≤ c := by split at low <;> omega
    exact ⟨by simp [tail.1], low, made, tail.2⟩

theorem chainSteps_safe {numberRange mod last : Int} {count : Nat} (range : 3 ≤ numberRange)
    (positive : 1 ≤ mod) : (chainSteps numberRange mod count last).Safe := by
  induction count generalizing last with
  | zero =>
    intro error raised
    exact (Prog.raises_pure _ _).mp raised
  | succ count ih =>
    intro error raised
    simp only [chainSteps, Prog.raises_bind, Prog.raises_pure, Prog.raises_ofExcept,
      pyMod_ok positive, and_false, exists_false, false_or, or_false, reduceCtorEq] at raised
    rcases raised with ⟨o, _, ⟨c, _, v, _, raised⟩ | raised⟩ | raised
    · exact ih error raised
    · have := (raises_randint.mp raised).1
      split at this <;> omega
    · exact safe_choice (by simp) error raised

theorem chainSteps_possible {numberRange mod last : Int} {count : Nat} (range : 2 ≤ numberRange)
    (divides : mod = 0 → count = 0) : ∃ steps, (chainSteps numberRange mod count last).Returns steps := by
  induction count generalizing last with
  | zero => exact ⟨[], rfl⟩
  | succ count ih =>
    have nonzero : mod ≠ 0 := fun zero => absurd (divides zero) (Nat.succ_ne_zero count)
    obtain ⟨rest, later⟩ := @ih ((Op.add.apply last 1).fmod mod) fun zero => absurd zero nonzero
    have made : pyMod (Op.add.apply last 1) mod = .ok ((Op.add.apply last 1).fmod mod) := by
      rw [pyMod, if_neg nonzero]
    refine ⟨⟨.add, 1, (Op.add.apply last 1).fmod mod⟩ :: rest, ?_⟩
    simp only [chainSteps, Prog.returns_bind, Prog.returns_ofExcept, Prog.returns_pure]
    exact ⟨.add, returns_choice.mpr (by simp), 1, returns_randint.mpr ⟨by decide, by omega⟩, _, made, rest,
      later, rfl⟩

theorem StepsFrom.step {mod last : Int} {steps : List Step} (from_ : StepsFrom mod last steps)
    (index : Nat) (within : index < steps.length) :
    1 ≤ (steps.map Step.const).getD index 0 ∧
      pyMod (((steps.map Step.op).getD index .add).apply ((last :: steps.map Step.value).getD index 0)
          ((steps.map Step.const).getD index 0)) mod =
        .ok ((last :: steps.map Step.value).getD (index + 1) 0) := by
  induction steps generalizing last index with
  | nil => simp at within
  | cons s steps ih =>
    obtain ⟨low, value, rest⟩ := from_
    cases index with
    | zero => exact ⟨low, value⟩
    | succ index => exact ih rest index (by simpa using within)

namespace ChainData

variable {data : ChainData} {mod : Int} {i j : Nat}

theorem item_op (within : i < data.ops.length) : item data.ops i = .ok (data.op i) :=
  item_ok Op.add within

theorem Sized.item_const (sized : data.Sized) (within : i < data.ops.length) :
    item data.constants i = .ok (data.const i) :=
  item_ok 0 (by rw [sized.constants]; exact within)

theorem Sized.item_value (sized : data.Sized) (within : i ≤ data.ops.length) :
    item data.values i = .ok (data.value i) :=
  item_ok 0 (by rw [sized.values]; omega)

theorem Sized.item_name (sized : data.Sized) (within : i ≤ data.ops.length) :
    item data.chainNames i = .ok (data.name i) :=
  item_ok [] (by rw [sized.names]; omega)

theorem Sized.last_value (sized : data.Sized) :
    lastItem data.values = .ok (data.value data.ops.length) := by
  have inside : data.ops.length < data.values.length := by rw [sized.values]; omega
  rw [lastItem, List.getLast?_eq_getElem?, sized.values, Nat.add_sub_cancel,
    List.getElem?_eq_getElem inside, value, List.getD_eq_getElem?_getD,
    List.getElem?_eq_getElem inside]
  rfl

theorem forms_append {middle : Nat} (left : i ≤ middle) (right : middle ≤ j) :
    data.forms i j = data.forms i middle ++ data.forms middle j := by
  have split : List.range' i (j - i) =
      List.range' i (middle - i) ++ List.range' middle (j - middle) := by
    have joined := @List.range'_append_1 i (middle - i) (j - middle)
    rw [Nat.add_sub_of_le left] at joined
    rw [joined, show middle - i + (j - middle) = j - i by omega]
  rw [forms, split, List.map_append]
  rfl

theorem forms_succ : data.forms i (i + 1) = [(data.op i).form (data.const i)] := by
  simp [forms]

namespace Follows

theorem value_nonneg (follows : data.Follows mod) (positive : 1 ≤ mod) (within : i ≤ data.ops.length) :
    0 ≤ data.value i := by
  cases i with
  | zero => exact follows.first_nonneg
  | succ i =>
    rw [follows.step i (by omega)]
    exact Int.emod_nonneg _ (by omega)

theorem value_lt (follows : data.Follows mod) (positive : 1 ≤ mod) (within : i < data.ops.length) :
    data.value (i + 1) < mod := by
  rw [follows.step i within]
  exact Int.emod_lt_of_pos _ (by omega)

theorem const_nonneg (follows : data.Follows mod) (within : i < data.ops.length) :
    0 ≤ data.const i := by
  have low := follows.constants_pos i within
  omega

theorem form_value (follows : data.Follows mod) (within : i < data.ops.length) :
    ((data.op i).form (data.const i)).apply (data.value i) ≡ data.value (i + 1) [ZMOD mod] := by
  rw [Op.form_apply, follows.step i within]
  exact (Int.mod_modEq _ _).symm

theorem composed_value (follows : data.Follows mod) (ordered : i ≤ j) (within : j ≤ data.ops.length) :
    (Affine.composed (data.forms i j)).apply (data.value i) ≡ data.value j [ZMOD mod] := by
  induction j, ordered using Nat.le_induction with
  | base => simp [forms, Int.ModEq]
  | succ j ordered ih =>
    rw [forms_append ordered (Nat.le_succ j), forms_succ, Affine.composed_append,
      Affine.composed_singleton, Affine.mul_apply]
    exact ((Affine.Congr.refl mod _).apply (ih (by omega))).trans (follows.form_value (by omega))

theorem covers_value (follows : data.Follows mod) (ordered : i ≤ j) (within : j ≤ data.ops.length)
    {f : Affine Int} (covers : Affine.Covers mod (data.forms i j) f) :
    f.apply (data.value i) ≡ data.value j [ZMOD mod] :=
  (covers.congr.apply rfl).trans (follows.composed_value ordered within)

theorem covers_mod (follows : data.Follows mod) (positive : 1 ≤ mod) (ordered : i < j)
    (within : j ≤ data.ops.length) {f : Affine Int} (covers : Affine.Covers mod (data.forms i j) f) :
    pyMod (f.apply (data.value i)) mod = .ok (data.value j) := by
  obtain ⟨before, rfl⟩ := Nat.exists_eq_add_of_lt ordered
  have small := follows.value_lt positive (by omega : i + before < data.ops.length)
  rw [pyMod_ok positive, (follows.covers_value ordered.le within covers).eq,
    Int.emod_eq_of_lt (follows.value_nonneg positive within) small]

end Follows

end ChainData

-- cats = 1, dogs = cats plus 2, owls = dogs times 2, modulo 5
def pairChain : ChainData where
  chainNames := [lit "cats", lit "dogs", lit "owls"]
  values := [1, 3, 1]
  constants := [2, 2]
  ops := [.add, .mul]
  problemText :=
    lit "The number of cats equals 1. The number of dogs equals the number of cats plus 2. " ++
      lit "The number of owls equals the number of dogs times 2."
  questionText := lit "What is the number of owls?"

theorem pairChain_follows : pairChain.Follows 5 where
  names := rfl
  values := rfl
  constants := rfl
  first_nonneg := by decide
  constants_pos := by decide
  step := by decide

end CotCompression
