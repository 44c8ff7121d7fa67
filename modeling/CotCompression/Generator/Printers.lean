import CotCompression.Generator.Lines
import CotCompression.Shared.Evaluation

set_option autoImplicit false

namespace CotCompression

open Expression (Tree evaluate IsName Operand)
open Text (lit decimal)

/-- What _format_linear is given as its symbol: a variable, or an expression in brackets. -/
inductive IsSymbol (env : Text → Option Int) : Text → Int → Prop
  | name {x : Text} {z : Int} (named : IsName x) (known : env x = some z) : IsSymbol env x z
  | group {t : Text} {z : Int} (inside : evaluate env t = some z) : IsSymbol env (parens t) z

section Printers

variable {env : Text → Option Int} {sym head : Text} {z : Int}

theorem IsSymbol.operand (symbol : IsSymbol env sym z) : Operand env sym z := by
  cases symbol with
  | name named known => exact Expression.operand_name named known
  | group inside => exact Expression.operand_group inside

theorem IsSymbol.filled (symbol : IsSymbol env sym z) : sym ≠ [] := by
  cases symbol with
  | name named known => exact named.1
  | group inside => simp [parens, lit]

theorem withTail_nil (b : Int) : withTail [] b = decimal b := by
  rw [withTail]
  by_cases zero : b = 0
  · rw [zero]
    rfl
  · by_cases positive : 0 < b
    · simp [zero, positive]
    · obtain ⟨n, rfl⟩ := Int.eq_negSucc_of_lt_zero (by omega : b < 0)
      rfl

theorem evaluate_withTail (filled : head ≠ []) (value : evaluate env head = some z) (b : Int) :
    evaluate env (withTail head b) = some (z + b) := by
  simp only [withTail, if_neg filled]
  by_cases zero : b = 0
  · rw [if_pos zero, List.append_nil, value, zero, add_zero]
  · rw [if_neg zero]
    by_cases positive : 0 < b
    · have plus := Expression.evaluate_plus value b.natAbs
      rw [Int.natAbs_of_nonneg positive.le] at plus
      rwa [if_pos positive, ← List.append_assoc]
    · have minus := Expression.evaluate_minus value b.natAbs
      rw [decimal_natAbs_neg (by omega)] at minus
      rw [if_neg positive, ← List.append_assoc, minus]
      congr 1
      omega

theorem evaluate_formatLinear (symbol : IsSymbol env sym z) (f : Affine Int) :
    evaluate env (formatLinear f sym) = some (f.apply z) := by
  rw [formatLinear, Affine.apply]
  by_cases zero : f.slope = 0
  · rw [if_pos zero, withTail_nil, Expression.evaluate_decimal, zero, zero_mul, zero_add]
  · rw [if_neg zero]
    by_cases one : f.slope = 1
    · rw [if_pos one, one, one_mul]
      exact evaluate_withTail symbol.filled (Expression.evaluate_operand symbol.operand) _
    · rw [if_neg one]
      exact evaluate_withTail (by simp [symbol.filled]) (Expression.evaluate_beside _ symbol.operand) _

theorem evaluate_formatLinearWithLiteral (env : Text → Option Int) {literal : Int} (nonneg : 0 ≤ literal)
    (f : Affine Int) : evaluate env (formatLinearWithLiteral f literal) = some (f.apply literal) := by
  rw [formatLinearWithLiteral, Affine.apply]
  by_cases zero : f.slope = 0
  · rw [if_pos zero, withTail_nil, Expression.evaluate_decimal, zero, zero_mul, zero_add]
  · rw [if_neg zero]
    by_cases one : f.slope = 1
    · rw [if_pos one, one, one_mul]
      exact evaluate_withTail (Text.decimal_ne_nil _) (Expression.evaluate_decimal env literal) _
    · rw [if_neg one]
      have product := Expression.evaluate_times env f.slope literal.natAbs
      rw [Int.natAbs_of_nonneg nonneg] at product
      exact evaluate_withTail (by simp [Text.decimal_ne_nil]) product _

-- The text fixes the values at 0 and at 1, and these fix the form.
theorem formatLinear_inj {x : Text} (named : IsName x) {f g : Affine Int}
    (same : formatLinear f x = formatLinear g x) : f = g := by
  have values (z : Int) : f.apply z = g.apply z := by
    have symbol : IsSymbol (fun _ => some z) x z := .name named rfl
    have equal : some (f.apply z) = some (g.apply z) := by
      rw [← evaluate_formatLinear symbol f, ← evaluate_formatLinear symbol g, same]
    exact Option.some.inj equal
  have atZero := values 0
  have atOne := values 1
  simp only [Affine.apply, mul_zero, zero_add, mul_one] at atZero atOne
  ext
  · omega
  · exact atZero

theorem formatLinear_canonical {x : Text} (named : IsName x) (mod : Int) (f g : Affine Int) :
    formatLinear (Affine.canonical mod f) x = formatLinear (Affine.canonical mod g) x ↔
      Affine.Congr mod f g := by
  rw [← Affine.canonical_eq_iff]
  exact ⟨formatLinear_inj named, fun same => by rw [same]⟩

end Printers

theorem printers_faithful :
    (∀ env sym z, IsSymbol env sym z → ∀ f : Affine Int,
      evaluate env (formatLinear f sym) = some (f.slope * z + f.intercept)) ∧
    (∀ env literal, 0 ≤ literal → ∀ f : Affine Int,
      evaluate env (formatLinearWithLiteral f literal) = some (f.slope * literal + f.intercept)) ∧
    (∀ x, IsName x → ∀ f g : Affine Int, formatLinear f x = formatLinear g x → f = g) ∧
    ∀ x, IsName x → ∀ mod : Int, mod ≠ 0 → ∀ f g : Affine Int, ∃ f' g',
      canonicalize f mod = .ok f' ∧ canonicalize g mod = .ok g' ∧
      (formatLinear f' x = formatLinear g' x ↔
        f.slope ≡ g.slope [ZMOD mod] ∧ f.intercept ≡ g.intercept [ZMOD mod]) := by
  refine ⟨fun env sym z symbol f => evaluate_formatLinear symbol f, ?_, ?_, ?_⟩
  · intro env literal nonneg f
    exact evaluate_formatLinearWithLiteral env nonneg f
  · intro x named f g same
    exact formatLinear_inj named same
  · intro x named mod nonzero f g
    exact ⟨_, _, canonicalize_ok nonzero f, canonicalize_ok nonzero g, formatLinear_canonical named mod f g⟩

theorem printers_faithful_pair :
    evaluate (fun _ => some 7) (formatLinear ⟨3, -2⟩ (parens (lit "AB + 1"))) = some 22 ∧
    evaluate (fun _ => none) (formatLinearWithLiteral ⟨3, -2⟩ 5) = some 13 ∧
    formatLinear ⟨3, -2⟩ (lit "AB") ≠ formatLinear ⟨0, -2⟩ (lit "AB") ∧
    ∃ f' g', canonicalize ⟨3, -2⟩ 5 = .ok f' ∧ canonicalize ⟨8, 13⟩ 5 = .ok g' ∧
      formatLinear f' (lit "AB") = formatLinear g' (lit "AB") := by
  have named : IsName (lit "AB") := by decide
  have inside : evaluate (fun _ => some 7) (lit "AB + 1") = some 8 := by decide
  obtain ⟨symbols, literals, apart, residues⟩ := printers_faithful
  obtain ⟨f', g', first, second, alike⟩ := residues (lit "AB") named 5 (by decide) ⟨3, -2⟩ ⟨8, 13⟩
  refine ⟨symbols _ _ 8 (.group inside) ⟨3, -2⟩, literals _ 5 (by decide) ⟨3, -2⟩, ?_, ?_⟩
  · intro same
    cases apart _ named _ _ same
  · exact ⟨f', g', first, second, alike.mpr (by decide)⟩

section Denotes

def chainEnv (data : ChainData) (ch : List Text) (x : Text) : Option Int :=
  ((List.range data.values.length).find? fun index => varOf ch index == x).map data.value

def Denotes (env : Text → Option Int) (mod value : Int) (t : Text) : Prop :=
  ∃ result, evaluate env t = some result ∧ result ≡ value [ZMOD mod]

theorem chainEnv_varOf {data : ChainData} {ch : List Text} (sized : data.Sized)
    (pool : Pool ch (data.ops.length + 1)) {index : Nat} (within : index ≤ data.ops.length) :
    chainEnv data ch (varOf ch index) = some (data.value index) := by
  have enough := pool.enough
  rw [← sized.values] at enough
  have within : index < data.values.length := by rw [sized.values]; omega
  obtain ⟨found, is⟩ : ∃ found, ((List.range data.values.length).find? fun other =>
      varOf ch other == varOf ch index) = some found :=
    Option.isSome_iff_exists.mp (List.find?_isSome.mpr
      ⟨index, List.mem_range.mpr within, by simp⟩)
  have inside := List.mem_range.mp (List.mem_of_find?_eq_some is)
  have same : varOf ch found = varOf ch index := by simpa using List.find?_some is
  rw [chainEnv, is, varOf_inj pool.distinct (by omega) (by omega) same]
  rfl

variable {env : Text → Option Int} {val : Text → Int} {mod value : Int}

theorem denotes_tree (val : Text → Int) {tree : Tree .sum}
    (named : tree.Names fun x => IsName x ∧ env x = some (val x))
    (same : tree.denote val ≡ value [ZMOD mod]) : Denotes env mod value tree.text :=
  ⟨_, Expression.evaluate_text _ tree named, same⟩

theorem denotes_decimal {z : Int} (same : z ≡ value [ZMOD mod]) : Denotes env mod value (decimal z) :=
  ⟨z, Expression.evaluate_decimal env z, same⟩

theorem denotes_name {x : Text} {z : Int} (named : IsName x) (known : env x = some z)
    (same : z ≡ value [ZMOD mod]) : Denotes env mod value x :=
  ⟨z, Expression.evaluate_operand (Expression.operand_name named known), same⟩

theorem denotes_formatLinear {f : Affine Int} {sym : Text} {z : Int} (symbol : IsSymbol env sym z)
    (same : f.apply z ≡ value [ZMOD mod]) : Denotes env mod value (formatLinear f sym) :=
  ⟨_, evaluate_formatLinear symbol f, same⟩

theorem denotes_formatLinearWithLiteral {f : Affine Int} {literal : Int} (nonneg : 0 ≤ literal)
    (same : f.apply literal ≡ value [ZMOD mod]) :
    Denotes env mod value (formatLinearWithLiteral f literal) :=
  ⟨_, evaluate_formatLinearWithLiteral env nonneg f, same⟩

theorem denotes_opText {left : Tree .product} (named : left.Names fun x => IsName x ∧ env x = some (val x))
    (o : Op) {c : Int} (nonneg : 0 ≤ c) (same : o.apply (left.denote val) c ≡ value [ZMOD mod]) :
    Denotes env mod value (opText left.text o c) := by
  have const : opText left.text o c = (opTree left o c.natAbs).text := by
    rw [opTree_text, Int.natAbs_of_nonneg nonneg]
  rw [const]
  refine denotes_tree val (opTree_names named o _) ?_
  rwa [opTree_denote, Int.natAbs_of_nonneg nonneg]

theorem denotes_operation (val : Text → Int) {data : ChainData} {i : Nat} (follows : data.Follows mod)
    (within : i < data.ops.length) {left : Tree .product}
    (named : left.Names fun x => IsName x ∧ env x = some (val x))
    (same : left.denote val ≡ data.value i [ZMOD mod]) :
    Denotes env mod (data.value (i + 1)) (opText left.text (data.op i) (data.const i)) := by
  refine denotes_opText named _ (follows.const_nonneg within) ?_
  rw [← Op.form_apply]
  exact ((Affine.Congr.refl mod _).apply same).trans (follows.form_value within)

theorem denotes_operation_name {data : ChainData} {i : Nat} (follows : data.Follows mod)
    (within : i < data.ops.length) {x : Text} (named : IsName x) (known : env x = some (data.value i)) :
    Denotes env mod (data.value (i + 1)) (opText x (data.op i) (data.const i)) := by
  have single : (Tree.single (.name x)).Names fun y => IsName y ∧ env y = some (data.value i) :=
    ⟨named, known⟩
  exact denotes_operation (fun _ => data.value i) follows within single rfl

theorem denotes_operation_value {data : ChainData} {i : Nat} (follows : data.Follows mod)
    (positive : 1 ≤ mod) (within : i < data.ops.length) :
    Denotes env mod (data.value (i + 1)) (opText (decimal (data.value i)) (data.op i) (data.const i)) := by
  have nonneg := follows.value_nonneg positive (by omega : i ≤ data.ops.length)
  have text : (Tree.single (.number (data.value i).natAbs)).text = decimal (data.value i) :=
    decimal_natAbs nonneg
  rw [← text]
  refine denotes_operation (fun _ => 0) follows within trivial ?_
  simp only [Tree.denote, Int.natAbs_of_nonneg nonneg]
  rfl

section Chain

variable {data : ChainData} {ch : List Text}

-- Every side of a line stands for the value of node `i`.
def Shows (data : ChainData) (ch : List Text) (mod : Int) (i : Nat) (line : Line) : Prop :=
  ∀ side ∈ line.sides, Denotes (chainEnv data ch) mod (data.value i) side

-- All sides of a line stand for one residue.
def TrueLine (data : ChainData) (ch : List Text) (mod : Int) (line : Line) : Prop :=
  ∃ value, ∀ side ∈ line.sides, Denotes (chainEnv data ch) mod value side

variable (follows : data.Follows mod) (pool : Pool ch (data.ops.length + 1))

include follows pool in
theorem denotes_varOf {i : Nat} (within : i ≤ data.ops.length) :
    Denotes (chainEnv data ch) mod (data.value i) (varOf ch i) :=
  denotes_name (pool.varOf_named (by omega)) (chainEnv_varOf follows.toSized pool within) rfl

include follows pool in
theorem denotes_covered {i j : Nat} {f : Affine Int} (ordered : i ≤ j) (within : j ≤ data.ops.length)
    (covers : Affine.Covers mod (data.forms i j) f) :
    Denotes (chainEnv data ch) mod (data.value j) (formatLinear f (varOf ch i)) :=
  denotes_formatLinear (.name (pool.varOf_named (by omega)) (chainEnv_varOf follows.toSized pool (by omega)))
    (follows.covers_value ordered within covers)

end Chain

end Denotes

end CotCompression
