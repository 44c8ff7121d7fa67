import CotCompression.Generator.Chain
import CotCompression.Shared.Expression

set_option autoImplicit false

namespace CotCompression

open Expression (Tree IsName)
open Text (lit decimal)

/-- One entry of `parts`: the node it defines, if any, and the sides of the equations it shows. -/
structure Line where
  introduces : Option (Text × Text)
  sides : List Text
  deriving DecidableEq

namespace Line

def define (name var : Text) (sides : List Text) : Line := ⟨some (name, var), sides⟩

def equation (sides : List Text) : Line := ⟨none, sides⟩

def text : Line → Text
  | ⟨some (name, var), sides⟩ =>
      lit "Define " ++ name ++ lit " as " ++ var ++ lit "; so " ++ Text.join (lit " = ") sides
  | ⟨none, sides⟩ => Text.join (lit " = ") sides

end Line

-- ". ".join(parts) + ". Answer: {}.".format(answer)
def solutionText (parts : List Line) (answer : Int) : Text :=
  Text.join (lit ". ") (parts.map Line.text) ++ lit ". Answer: " ++ decimal answer ++ lit "."

-- "{} {} {}".format(left, o, c)
def opText (left : Text) (o : Op) (c : Int) : Text :=
  left ++ lit " " ++ o.symbol ++ lit " " ++ decimal c

-- The second half of both formatters: the constant behind a head that may be empty.
def withTail (head : Text) (b : Int) : Text :=
  let tail :=
    if b = 0 then (if head = [] then lit "0" else [])
    else if 0 < b then (if head = [] then decimal b else lit " + " ++ decimal b)
    else (if head = [] then lit "-" ++ decimal (-b) else lit " - " ++ decimal (-b))
  head ++ tail

-- _format_linear
def formatLinear (f : Affine Int) (sym : Text) : Text :=
  withTail (if f.slope = 0 then [] else if f.slope = 1 then sym else decimal f.slope ++ sym)
    f.intercept

-- _format_linear_with_literal
def formatLinearWithLiteral (f : Affine Int) (literal : Int) : Text :=
  withTail
    (if f.slope = 0 then [] else if f.slope = 1 then decimal literal
      else decimal f.slope ++ lit " * " ++ decimal literal)
    f.intercept

-- _canonicalize
def canonicalize (f : Affine Int) (mod : Int) : Except PyError (Affine Int) := do
  let a ← pyMod f.slope mod
  let b ← pyMod f.intercept mod
  return ⟨a, if b > mod / 2 then b - mod else b⟩

-- "({})".format(t)
def parens (t : Text) : Text := lit "(" ++ t ++ lit ")"

-- ch.pop(), for the (index + 1)-th time
def pop (ch : List Text) (index : Nat) : Except PyError Text := item ch.reverse index

def varOf (ch : List Text) (index : Nat) : Text := ch.reverse.getD index []

theorem pop_ok {ch : List Text} {index : Nat} (within : index < ch.length) :
    pop ch index = .ok (varOf ch index) :=
  item_ok [] (by simpa using within)

theorem varOf_mem {ch : List Text} {index : Nat} (within : index < ch.length) :
    varOf ch index ∈ ch := by
  have inside : index < ch.reverse.length := by simpa using within
  rw [varOf, List.getD_eq_getElem?_getD, List.getElem?_eq_getElem inside]
  exact List.mem_reverse.mp (List.getElem_mem inside)

theorem varOf_inj {ch : List Text} (distinct : ch.Nodup) {i j : Nat} (left : i < ch.length)
    (right : j < ch.length) (same : varOf ch i = varOf ch j) : i = j := by
  have li : i < ch.reverse.length := by simpa using left
  have lj : j < ch.reverse.length := by simpa using right
  simp only [varOf, List.getD_eq_getElem?_getD, List.getElem?_eq_getElem li,
    List.getElem?_eq_getElem lj, Option.getD_some] at same
  exact (List.nodup_reverse.mpr distinct).getElem_inj_iff.mp same

-- [ch.pop() for _ in range(count)]
def popMany (ch : List Text) (count : Nat) : Except PyError (List Text) :=
  (List.range count).mapM (pop ch)

theorem popMany_ok {ch : List Text} {count : Nat} (enough : count ≤ ch.length) :
    popMany ch count = .ok ((List.range count).map (varOf ch)) :=
  mapM_ok fun _ member => pop_ok (Nat.lt_of_lt_of_le (List.mem_range.mp member) enough)

theorem item_popMany {ch : List Text} {count index : Nat} (within : index < count) :
    item ((List.range count).map (varOf ch)) index = .ok (varOf ch index) := by
  simp [item, within]

structure Pool (ch : List Text) (count : Nat) : Prop where
  named : ∀ x ∈ ch, IsName x
  distinct : ch.Nodup
  enough : count ≤ ch.length

theorem Pool.varOf_named {ch : List Text} {count index : Nat} (pool : Pool ch count)
    (within : index < count) : IsName (varOf ch index) :=
  pool.named _ (varOf_mem (Nat.lt_of_lt_of_le within pool.enough))

theorem Pool.perm {ch other : List Text} {count : Nat} (pool : Pool ch count) (same : other.Perm ch) :
    Pool other count where
  named x member := pool.named x (same.mem_iff.mp member)
  distinct := same.nodup_iff.mpr pool.distinct
  enough := same.length_eq ▸ pool.enough

theorem variablePool {count : Nat} (enough : count ≤ 676) : Pool variableNames count where
  named x member := by
    obtain ⟨length, upper⟩ := variableNames_upper x member
    exact ⟨fun none => by simp [none] at length, fun c inside => Text.alpha_of_upper (upper c inside)⟩
  distinct := variableNames_nodup
  enough := by rw [variableNames_length]; exact enough

theorem canonicalize_ok {mod : Int} (nonzero : mod ≠ 0) (f : Affine Int) :
    canonicalize f mod = .ok (Affine.canonical mod f) := by
  rw [canonicalize, pyMod, if_neg nonzero, pyMod, if_neg nonzero]
  rfl

section Plain

-- The characters a line can show; none of them ends a sentence, opens a tag or follows "Answer".
def isPlain (c : Char) : Bool := c.isAlphanum || (lit " +-*()=;").contains c

def Plain (t : Text) : Prop := ∀ c ∈ t, isPlain c = true

instance (t : Text) : Decidable (Plain t) := inferInstanceAs (Decidable (∀ c ∈ t, _))

theorem plain_append {s t : Text} (left : Plain s) (right : Plain t) : Plain (s ++ t) := by
  intro c member
  rcases List.mem_append.mp member with member | member
  · exact left c member
  · exact right c member

theorem plain_decimal (z : Int) : Plain (decimal z) := Text.forall_decimal (by decide) (by decide) z

theorem plain_join {sep : Text} {parts : List Text} (sepPlain : Plain sep)
    (each : ∀ part ∈ parts, Plain part) : Plain (Text.join sep parts) :=
  Text.forall_join sepPlain each

theorem plain_symbol (o : Op) : Plain o.symbol := by cases o <;> decide

theorem plain_opText {left : Text} (plain : Plain left) (o : Op) (c : Int) :
    Plain (opText left o c) :=
  plain_append (plain_append (plain_append (plain_append plain (by decide)) (plain_symbol o))
    (by decide)) (plain_decimal c)

theorem plain_parens {t : Text} (plain : Plain t) : Plain (parens t) :=
  plain_append (plain_append (by decide) plain) (by decide)

theorem plain_withTail {head : Text} (plain : Plain head) (b : Int) : Plain (withTail head b) := by
  refine plain_append plain ?_
  split
  · split <;> decide
  · split
    · split
      · exact plain_decimal b
      · exact plain_append (by decide) (plain_decimal b)
    · split
      · exact plain_append (by decide) (plain_decimal (-b))
      · exact plain_append (by decide) (plain_decimal (-b))

theorem plain_formatLinear {sym : Text} (plain : Plain sym) (f : Affine Int) :
    Plain (formatLinear f sym) := by
  refine plain_withTail ?_ _
  split
  · decide
  · split
    · exact plain
    · exact plain_append (plain_decimal _) plain

theorem plain_formatLinearWithLiteral (f : Affine Int) (literal : Int) :
    Plain (formatLinearWithLiteral f literal) := by
  refine plain_withTail ?_ _
  split
  · decide
  · split
    · exact plain_decimal _
    · exact plain_append (plain_append (plain_decimal _) (by decide)) (plain_decimal _)

structure Line.Clear (line : Line) : Prop where
  sides : ∀ side ∈ line.sides, Plain side
  introduces : ∀ name var, line.introduces = some (name, var) → Plain name ∧ Plain var

theorem Line.Clear.text {line : Line} (clear : line.Clear) : Plain line.text := by
  obtain ⟨introduces, sides⟩ := line
  have body : Plain (Text.join (lit " = ") sides) := plain_join (by decide) clear.sides
  cases introduces with
  | none => exact body
  | some pair =>
    obtain ⟨name, var⟩ := pair
    obtain ⟨namePlain, varPlain⟩ := clear.introduces name var rfl
    exact plain_append (plain_append (plain_append (plain_append (plain_append (by decide) namePlain)
      (by decide)) varPlain) (by decide)) body

theorem clear_define {name var : Text} {sides : List Text} (namePlain : Plain name)
    (varPlain : Plain var) (each : ∀ side ∈ sides, Plain side) :
    (Line.define name var sides).Clear :=
  ⟨each, fun _ _ same => by cases same; exact ⟨namePlain, varPlain⟩⟩

theorem clear_equation {sides : List Text} (each : ∀ side ∈ sides, Plain side) :
    (Line.equation sides).Clear :=
  ⟨each, fun _ _ same => by cases same⟩

end Plain

section Trees

-- A coefficient before an atom: juxtaposed, but with a sign before a bare number.
def scaled (n : Nat) : Tree .atom → Tree .product
  | .number m => .times (.single (.number n)) (.number m)
  | .name x => .scaledName n x
  | .group s => .scaledGroup n s

def headTree (slope : Int) (atom : Tree .atom) : Tree .product :=
  if slope = 1 then .single atom else scaled slope.natAbs atom

def linearTree (f : Affine Int) (atom : Tree .atom) : Tree .sum :=
  if f.slope = 0 then
    if f.intercept < 0 then .negated (.single (.number f.intercept.natAbs))
    else .first (.single (.number f.intercept.natAbs))
  else if f.intercept = 0 then .first (headTree f.slope atom)
  else if 0 < f.intercept then
    .plus (.first (headTree f.slope atom)) (.single (.number f.intercept.natAbs))
  else .minus (.first (headTree f.slope atom)) (.single (.number f.intercept.natAbs))

def opTree (left : Tree .product) (o : Op) (c : Nat) : Tree .sum :=
  match o with
  | .add => .plus (.first left) (.single (.number c))
  | .sub => .minus (.first left) (.single (.number c))
  | .mul => .first (.times left (.number c))

theorem scaled_denote (val : Text → Int) (n : Nat) (atom : Tree .atom) :
    (scaled n atom).denote val = n * atom.denote val := by
  cases atom <;> rfl

theorem scaled_names {good : Text → Prop} {n : Nat} {atom : Tree .atom} (named : atom.Names good) :
    (scaled n atom).Names good := by
  cases atom with
  | number m => exact ⟨trivial, trivial⟩
  | name x => exact named
  | group s => exact named

theorem headTree_denote (val : Text → Int) {slope : Int} (nonneg : 0 ≤ slope) (atom : Tree .atom) :
    (headTree slope atom).denote val = slope * atom.denote val := by
  unfold headTree
  split
  · next one => rw [one, one_mul, Tree.denote]
  · rw [scaled_denote, Int.natAbs_of_nonneg nonneg]

theorem headTree_names {good : Text → Prop} {slope : Int} {atom : Tree .atom}
    (named : atom.Names good) : (headTree slope atom).Names good := by
  unfold headTree
  split
  · exact named
  · exact scaled_names named

theorem linearTree_denote (val : Text → Int) {f : Affine Int} (nonneg : 0 ≤ f.slope)
    (atom : Tree .atom) : (linearTree f atom).denote val = f.apply (atom.denote val) := by
  have head := headTree_denote val nonneg atom
  unfold linearTree
  split
  · next zero =>
    split <;> simp only [Tree.denote, Affine.apply, zero] <;> omega
  · split
    · next none => simp only [Tree.denote, Affine.apply, head, none, add_zero]
    · split <;> simp only [Tree.denote, Affine.apply, head] <;> omega

theorem linearTree_names {good : Text → Prop} {f : Affine Int} {atom : Tree .atom}
    (named : atom.Names good) : (linearTree f atom).Names good := by
  have head : (headTree f.slope atom).Names good := headTree_names named
  unfold linearTree
  split
  · split <;> trivial
  · split
    · exact head
    · split <;> exact ⟨head, trivial⟩

theorem decimal_natAbs {z : Int} (nonneg : 0 ≤ z) : decimal (z.natAbs : Int) = decimal z := by
  rw [Int.natAbs_of_nonneg nonneg]

theorem decimal_natAbs_neg {z : Int} (neg : z < 0) : decimal (z.natAbs : Int) = decimal (-z) := by
  congr 1
  omega

theorem linearTree_text {f : Affine Int} {atom : Tree .atom} {head : Text} (filled : head ≠ [])
    (headIs : (headTree f.slope atom).text = head) :
    (linearTree f atom).text = withTail (if f.slope = 0 then [] else head) f.intercept := by
  unfold linearTree withTail
  by_cases zero : f.slope = 0
  · simp only [if_pos zero, if_true, List.nil_append]
    by_cases negative : f.intercept < 0
    · rw [if_pos negative, if_neg (by omega), if_neg (by omega), Tree.text, Tree.text, Tree.text,
        decimal_natAbs_neg negative]
    · rw [if_neg negative, Tree.text, Tree.text, Tree.text, decimal_natAbs (by omega)]
      split
      · next none => rw [none]; rfl
      · rw [if_pos (by omega)]
  · simp only [if_neg zero, if_neg filled]
    by_cases none : f.intercept = 0
    · rw [if_pos none, if_pos none, Tree.text, headIs, List.append_nil]
    · by_cases above : 0 < f.intercept
      · rw [if_neg none, if_pos above, if_neg none, if_pos above]
        simp only [Tree.text, headIs, decimal_natAbs above.le, List.append_assoc]
      · have below : f.intercept < 0 := by omega
        rw [if_neg none, if_neg above, if_neg none, if_neg above]
        simp only [Tree.text, headIs, decimal_natAbs_neg below, List.append_assoc]

theorem headTree_text {slope : Int} {atom : Tree .atom} {times : Text}
    (scaledIs : (scaled slope.natAbs atom).text = decimal slope ++ times) :
    (headTree slope atom).text =
      if slope = 1 then atom.text else decimal slope ++ times := by
  unfold headTree
  split
  · rw [Tree.text]
  · exact scaledIs

theorem head_filled {slope : Int} {sym times : Text} (filled : sym ≠ []) :
    (if slope = 1 then sym else decimal slope ++ times) ≠ [] := by
  split
  · exact filled
  · exact List.append_ne_nil_of_left_ne_nil (Text.decimal_ne_nil slope) _

theorem formatLinear_name {f : Affine Int} (nonneg : 0 ≤ f.slope) {x : Text} (named : IsName x) :
    formatLinear f x = (linearTree f (.name x)).text := by
  have scaledIs : (scaled f.slope.natAbs (.name x)).text = decimal f.slope ++ x := by
    rw [scaled, Tree.text, decimal_natAbs nonneg]
  exact (linearTree_text (head_filled named.1) (headTree_text scaledIs)).symm

def flatTree (f : Affine Int) (atom : Tree .atom) : Tree .product :=
  if f.slope = 0 then .single (.number 0) else headTree f.slope atom

theorem linearTree_flat {f : Affine Int} (flat : f.intercept = 0) (atom : Tree .atom) :
    linearTree f atom = .first (flatTree f atom) := by
  unfold linearTree flatTree
  rw [flat]
  split
  · rfl
  · rw [if_pos rfl]

theorem opTree_text (left : Tree .product) (o : Op) (c : Nat) :
    (opTree left o c).text = opText left.text o c := by
  cases o <;> simp [opTree, opText, Tree.text, Op.symbol, lit]

theorem opTree_denote (val : Text → Int) (left : Tree .product) (o : Op) (c : Nat) :
    (opTree left o c).denote val = o.apply (left.denote val) c := by
  cases o <;> rfl

theorem opTree_names {good : Text → Prop} {left : Tree .product} (named : left.Names good) (o : Op)
    (c : Nat) : (opTree left o c).Names good := by
  cases o <;> exact ⟨named, trivial⟩

end Trees

end CotCompression
