import Mathlib.Algebra.Ring.Int.Defs
import Mathlib.Tactic.Ring
import CotCompression.Shared.Text

set_option autoImplicit false

-- Infix arithmetic: `*` binds tighter than `+` and `-`, all associate to the left, and a
-- coefficient written directly before a name or a bracket multiplies it (3AB, 3(...)).
namespace Expression

inductive Token where
  | digits (text : Text)
  | letters (text : Text)
  | symbol (c : Char)
  | blank
  deriving DecidableEq

def lexChar (c : Char) (rest : List Token) : List Token :=
  if c.isDigit then
    match rest with
    | .digits text :: more => .digits (c :: text) :: more
    | _ => .digits [c] :: rest
  else if c.isAlpha then
    match rest with
    | .letters text :: more => .letters (c :: text) :: more
    | _ => .letters [c] :: rest
  else if c = ' ' then .blank :: rest
  else .symbol c :: rest

def lex (t : Text) : List Token := t.foldr lexChar []

inductive Part where
  | opening
  | operand
  | factor (value : Int)
  | times (value : Int)

structure Frame where
  total : Int := 0
  sign : Int := 1
  part : Part := .opening

namespace Frame

def given (frame : Frame) (value : Int) : Frame :=
  { frame with part := .factor (match frame.part with
    | .times product => product * value
    | _ => value) }

def supply (frame : Frame) (value : Int) : Option Frame :=
  match frame.part with
  | .factor _ => none
  | _ => some (frame.given value)

def beside (frame : Frame) (value : Int) : Frame :=
  match frame.part with
  | .factor product => { frame with part := .factor (product * value) }
  | _ => frame.given value

def close (frame : Frame) : Option Int :=
  match frame.part with
  | .factor product => some (frame.total + frame.sign * product)
  | _ => none

end Frame

def step (env : Text → Option Int) : Frame × List Frame → Token → Option (Frame × List Frame)
  | stack, .blank => some stack
  | (frame, outer), .digits text => do
    let next ← frame.supply (Text.natOf text)
    return (next, outer)
  | (frame, outer), .letters text => do
    let value ← env text
    return (frame.beside value, outer)
  | (frame, outer), .symbol '(' => some ({}, frame :: outer)
  | (frame, outer), .symbol ')' => do
    let value ← frame.close
    match outer with
    | [] => none
    | parent :: rest => some (parent.beside value, rest)
  | (frame, outer), .symbol '+' => do
    let total ← frame.close
    return ({ total, sign := 1, part := .operand }, outer)
  | (frame, outer), .symbol '-' =>
    match frame.part with
    | .opening => some ({ frame with sign := -1, part := .operand }, outer)
    | _ => do
      let total ← frame.close
      return ({ total, sign := -1, part := .operand }, outer)
  | (frame, outer), .symbol '*' =>
    match frame.part with
    | .factor product => some ({ frame with part := .times product }, outer)
    | _ => none
  | _, .symbol _ => none

def readTokens (env : Text → Option Int) (tokens : List Token) (stack : Frame × List Frame) :
    Option (Frame × List Frame) :=
  tokens.foldlM (step env) stack

def evaluate (env : Text → Option Int) (t : Text) : Option Int := do
  let (frame, outer) ← readTokens env (lex t) ({}, [])
  if outer.isEmpty then frame.close else none

example : evaluate (fun _ => some 5) (Text.lit "3(AB + 2) * 2 - 1") = some 41 := by decide

inductive Level where
  | atom
  | product
  | sum

/-- Derivation trees of the notation; a tree's text and value are read off its shape. -/
inductive Tree : Level → Type where
  | number (n : Nat) : Tree .atom
  | name (x : Text) : Tree .atom
  | group (s : Tree .sum) : Tree .atom
  | single (a : Tree .atom) : Tree .product
  | times (p : Tree .product) (a : Tree .atom) : Tree .product
  | scaledName (n : Nat) (x : Text) : Tree .product
  | scaledGroup (n : Nat) (s : Tree .sum) : Tree .product
  | first (p : Tree .product) : Tree .sum
  | negated (p : Tree .product) : Tree .sum
  | plus (s : Tree .sum) (p : Tree .product) : Tree .sum
  | minus (s : Tree .sum) (p : Tree .product) : Tree .sum

namespace Tree

open Text (lit)

def text : {level : Level} → Tree level → Text
  | _, number n => Text.decimal n
  | _, name x => x
  | _, group s => lit "(" ++ s.text ++ lit ")"
  | _, single a => a.text
  | _, times p a => p.text ++ lit " * " ++ a.text
  | _, scaledName n x => Text.decimal n ++ x
  | _, scaledGroup n s => Text.decimal n ++ (lit "(" ++ s.text ++ lit ")")
  | _, first p => p.text
  | _, negated p => lit "-" ++ p.text
  | _, plus s p => s.text ++ lit " + " ++ p.text
  | _, minus s p => s.text ++ lit " - " ++ p.text

def denote (val : Text → Int) : {level : Level} → Tree level → Int
  | _, number n => n
  | _, name x => val x
  | _, group s => s.denote val
  | _, single a => a.denote val
  | _, times p a => p.denote val * a.denote val
  | _, scaledName n x => n * val x
  | _, scaledGroup n s => n * s.denote val
  | _, first p => p.denote val
  | _, negated p => -p.denote val
  | _, plus s p => s.denote val + p.denote val
  | _, minus s p => s.denote val - p.denote val

def tokens : {level : Level} → Tree level → List Token
  | _, number n => [.digits (Text.decimal n)]
  | _, name x => [.letters x]
  | _, group s => .symbol '(' :: (s.tokens ++ [.symbol ')'])
  | _, single a => a.tokens
  | _, times p a => p.tokens ++ .blank :: .symbol '*' :: .blank :: a.tokens
  | _, scaledName n x => [.digits (Text.decimal n), .letters x]
  | _, scaledGroup n s => .digits (Text.decimal n) :: .symbol '(' :: (s.tokens ++ [.symbol ')'])
  | _, first p => p.tokens
  | _, negated p => .symbol '-' :: p.tokens
  | _, plus s p => s.tokens ++ .blank :: .symbol '+' :: .blank :: p.tokens
  | _, minus s p => s.tokens ++ .blank :: .symbol '-' :: .blank :: p.tokens

def Names (good : Text → Prop) : {level : Level} → Tree level → Prop
  | _, number _ => True
  | _, name x => good x
  | _, group s => s.Names good
  | _, single a => a.Names good
  | _, times p a => p.Names good ∧ a.Names good
  | _, scaledName _ x => good x
  | _, scaledGroup _ s => s.Names good
  | _, first p => p.Names good
  | _, negated p => p.Names good
  | _, plus s p => s.Names good ∧ p.Names good
  | _, minus s p => s.Names good ∧ p.Names good

end Tree

def IsName (x : Text) : Prop := x ≠ [] ∧ ∀ c ∈ x, c.isAlpha = true

instance (x : Text) : Decidable (IsName x) := inferInstanceAs (Decidable (_ ∧ _))

/-- A token list the lexer cannot merge a digit or a letter into. -/
def Separate : List Token → Prop
  | .digits _ :: _ => False
  | .letters _ :: _ => False
  | _ => True

theorem lex_digits {ds : Text} {rest : List Token} (nonempty : ds ≠ [])
    (digits : ∀ c ∈ ds, c.isDigit = true) (apart : ∀ text more, rest ≠ .digits text :: more) :
    ds.foldr lexChar rest = .digits ds :: rest := by
  induction ds with
  | nil => exact absurd rfl nonempty
  | cons c ds ih =>
    have digit := digits c (by simp)
    cases ds with
    | nil =>
      simp only [List.foldr_cons, List.foldr_nil, lexChar, digit, if_true]
    | cons d ds =>
      rw [List.foldr_cons, ih (by simp) fun c member => digits c (List.mem_cons_of_mem _ member)]
      simp only [lexChar, digit, if_true]

theorem lex_letters {x : Text} {rest : List Token} (named : IsName x)
    (apart : ∀ text more, rest ≠ .letters text :: more) :
    x.foldr lexChar rest = .letters x :: rest := by
  obtain ⟨nonempty, letters⟩ := named
  induction x with
  | nil => exact absurd rfl nonempty
  | cons c x ih =>
    have letter := letters c (by simp)
    have notDigit := Text.not_digit_of_alpha letter
    cases x with
    | nil => simp only [List.foldr_cons, List.foldr_nil, lexChar, notDigit, letter, if_true]; rfl
    | cons d x =>
      rw [List.foldr_cons, ih (by simp) fun c member => letters c (List.mem_cons_of_mem _ member)]
      simp only [lexChar, notDigit, letter, if_true]
      rfl

theorem decimal_digits (n : Nat) : ∀ c ∈ Text.decimal n, c.isDigit = true :=
  Text.forall_toDigits (by decide) n

theorem lex_decimal (n : Nat) {rest : List Token} (apart : ∀ text more, rest ≠ .digits text :: more) :
    (Text.decimal n).foldr lexChar rest = .digits (Text.decimal n) :: rest :=
  lex_digits (Text.decimal_ne_nil _) (decimal_digits n) apart

theorem Separate.noDigits {rest : List Token} (separate : Separate rest) :
    ∀ text more, rest ≠ .digits text :: more := by
  rintro text more rfl
  exact separate

theorem Separate.noLetters {rest : List Token} (separate : Separate rest) :
    ∀ text more, rest ≠ .letters text :: more := by
  rintro text more rfl
  exact separate

theorem lex_bracketed {inner : Text} {tokens : List Token}
    (read : ∀ rest, Separate rest → inner.foldr lexChar rest = tokens ++ rest) (rest : List Token) :
    (Text.lit "(" ++ inner ++ Text.lit ")").foldr lexChar rest =
      .symbol '(' :: (tokens ++ [.symbol ')']) ++ rest := by
  have close : (Text.lit ")").foldr lexChar rest = .symbol ')' :: rest := rfl
  have apart : Separate (.symbol ')' :: rest) := trivial
  rw [List.append_assoc, List.foldr_append, List.foldr_append, close, read _ apart]
  simp only [List.cons_append, List.append_assoc, List.nil_append]
  rfl

theorem lex_infix {left right op : Text} {l r rest : List Token} {c : Char}
    (symbol : ∀ rest, op.foldr lexChar rest = .blank :: .symbol c :: .blank :: rest)
    (readLeft : ∀ rest, Separate rest → left.foldr lexChar rest = l ++ rest)
    (readRight : right.foldr lexChar rest = r ++ rest) :
    (left ++ op ++ right).foldr lexChar rest =
      (l ++ .blank :: .symbol c :: .blank :: r) ++ rest := by
  have apart : Separate (.blank :: .symbol c :: .blank :: (r ++ rest)) := trivial
  rw [List.append_assoc, List.foldr_append, List.foldr_append, readRight, symbol, readLeft _ apart]
  simp

theorem lex_text {level : Level} (tree : Tree level) (named : tree.Names IsName)
    (rest : List Token) (separate : Separate rest) :
    tree.text.foldr lexChar rest = tree.tokens ++ rest := by
  induction tree generalizing rest with
  | number n => exact lex_decimal n separate.noDigits
  | name x => exact lex_letters named separate.noLetters
  | group s ih => exact lex_bracketed (ih named) rest
  | single a ih => exact ih named rest separate
  | times p a ihp iha =>
    exact lex_infix (fun _ => rfl) (ihp named.1) (iha named.2 rest separate)
  | scaledName n x =>
    rw [Tree.text, List.foldr_append, lex_letters named separate.noLetters, lex_decimal]
    · rfl
    · simp
  | scaledGroup n s ih =>
    rw [Tree.text, List.foldr_append, lex_bracketed (ih named), lex_decimal]
    · rfl
    · simp
  | first p ih => exact ih named rest separate
  | negated p ih =>
    rw [Tree.text, List.foldr_append, ih named rest separate]
    rfl
  | plus s p ihs ihp =>
    exact lex_infix (fun _ => rfl) (ihs named.1) (ihp named.2 rest separate)
  | minus s p ihs ihp =>
    exact lex_infix (fun _ => rfl) (ihs named.1) (ihp named.2 rest separate)

/-- Reading a tree's tokens: an atom hands its value to the frame, a product fills a waiting part, a sum read into a
new group closes to its value. -/
def Reads (env : Text → Option Int) (val : Text → Int) : {level : Level} → Tree level → Prop
  | .atom, a => ∀ (frame : Frame) outer, (∀ value, frame.part ≠ .factor value) →
      readTokens env a.tokens (frame, outer) = some (frame.given (a.denote val), outer)
  | .product, p => ∀ (frame : Frame) outer, frame.part = .opening ∨ frame.part = .operand →
      readTokens env p.tokens (frame, outer) =
        some ({ frame with part := .factor (p.denote val) }, outer)
  | .sum, s => ∀ outer, ∃ frame : Frame,
      readTokens env s.tokens ({}, outer) = some (frame, outer) ∧
        frame.part = .factor (frame.sign * (s.denote val - frame.total)) ∧ frame.sign * frame.sign = 1

theorem close_of_reads {frame : Frame} {value : Int}
    (part : frame.part = .factor (frame.sign * (value - frame.total)))
    (unit : frame.sign * frame.sign = 1) : frame.close = some value := by
  rw [Frame.close, part]
  have : frame.sign * (frame.sign * (value - frame.total)) = value - frame.total := by
    rw [← mul_assoc, unit, one_mul]
  simp only [this, add_sub_cancel]

theorem readTokens_append (env : Text → Option Int) (left right : List Token)
    (stack : Frame × List Frame) :
    readTokens env (left ++ right) stack = (readTokens env left stack).bind (readTokens env right) :=
  List.foldlM_append

theorem readTokens_cons (env : Text → Option Int) (token : Token) (rest : List Token)
    (stack : Frame × List Frame) :
    readTokens env (token :: rest) stack = (step env stack token).bind (readTokens env rest) := rfl

theorem readTokens_nil (env : Text → Option Int) (stack : Frame × List Frame) :
    readTokens env [] stack = some stack := rfl

theorem reads_group {env : Text → Option Int} {val : Text → Int} {s : Tree .sum}
    (ih : Reads env val s) (frame : Frame) (outer : List Frame) :
    readTokens env (.symbol '(' :: (s.tokens ++ [.symbol ')'])) (frame, outer) =
      some (frame.beside (s.denote val), outer) := by
  obtain ⟨inner, read, part, unit⟩ := ih (frame :: outer)
  rw [readTokens_cons]
  change readTokens env (s.tokens ++ [.symbol ')']) ({}, frame :: outer) = _
  rw [readTokens_append, read]
  change (step env (inner, frame :: outer) (.symbol ')')).bind _ = _
  simp [step, close_of_reads part unit]

theorem reads_tree {env : Text → Option Int} {val : Text → Int} {level : Level} (tree : Tree level)
    (named : tree.Names fun x => env x = some (val x)) : Reads env val tree := by
  induction tree with
  | number n =>
    intro frame outer waiting
    rw [Tree.tokens, readTokens_cons]
    cases part : frame.part <;>
      simp_all [step, Frame.supply, Tree.denote, readTokens_nil]
  | name x =>
    intro frame outer waiting
    have known : env x = some (val x) := named
    rw [Tree.tokens, readTokens_cons]
    cases part : frame.part <;>
      simp_all [step, Frame.beside, Tree.denote, readTokens_nil]
  | group s ih =>
    intro frame outer waiting
    rw [Tree.tokens, reads_group (ih named)]
    cases part : frame.part <;> simp_all [Frame.beside, Tree.denote]
  | single a ih =>
    intro frame outer waiting
    rw [Tree.tokens, ih named frame outer (by rcases waiting with part | part <;> simp [part])]
    rcases waiting with part | part <;> simp [Frame.given, part, Tree.denote]
  | times p a ihp iha =>
    intro frame outer waiting
    rw [Tree.tokens, readTokens_append, ihp named.1 frame outer waiting]
    simp only [Option.bind_some, readTokens_cons, step]
    rw [iha named.2 _ outer (by simp)]
    simp [Frame.given, Tree.denote]
  | scaledName n x =>
    intro frame outer waiting
    have known : env x = some (val x) := named
    rcases waiting with part | part <;>
      simp [Tree.tokens, readTokens_cons, readTokens_nil, step, Frame.supply, Frame.given,
        Frame.beside, part, known, Tree.denote]
  | scaledGroup n s ih =>
    intro frame outer waiting
    rw [Tree.tokens, readTokens_cons]
    rcases waiting with part | part <;>
      simp [step, Frame.supply, Frame.given, Frame.beside, part, Tree.denote,
        reads_group (ih named)]
  | first p ih =>
    intro outer
    refine ⟨_, ih named {} outer (.inl rfl), ?_, ?_⟩ <;> simp [Tree.denote]
  | negated p ih =>
    intro outer
    rw [Tree.tokens, readTokens_cons]
    refine ⟨_, ih named { sign := -1, part := .operand } outer (.inr rfl), ?_, ?_⟩ <;>
      simp [Tree.denote]
  | plus s p ihs ihp =>
    intro outer
    obtain ⟨frame, read, part, unit⟩ := ihs named.1 outer
    rw [Tree.tokens, readTokens_append, read]
    simp only [Option.bind_some, readTokens_cons, step, close_of_reads part unit]
    refine ⟨_, ihp named.2 { total := s.denote val, sign := 1, part := .operand } outer (.inr rfl),
      ?_, ?_⟩ <;>
      simp [Tree.denote]
  | minus s p ihs ihp =>
    intro outer
    obtain ⟨frame, read, part, unit⟩ := ihs named.1 outer
    rw [Tree.tokens, readTokens_append, read]
    simp only [Option.bind_some, readTokens_cons, step, part, close_of_reads part unit]
    refine ⟨_, ihp named.2 { total := s.denote val, sign := -1, part := .operand } outer (.inr rfl),
      ?_, ?_⟩ <;>
      simp [Tree.denote]

theorem Tree.Names.imp {good better : Text → Prop} {level : Level} {tree : Tree level}
    (weaker : ∀ x, good x → better x) (named : tree.Names good) : tree.Names better := by
  induction tree with
  | number n => trivial
  | name x => exact weaker x named
  | scaledName n x => exact weaker x named
  | group s ih => exact ih named
  | single a ih => exact ih named
  | scaledGroup n s ih => exact ih named
  | first p ih => exact ih named
  | negated p ih => exact ih named
  | times p a ihp iha => exact ⟨ihp named.1, iha named.2⟩
  | plus s p ihs ihp => exact ⟨ihs named.1, ihp named.2⟩
  | minus s p ihs ihp => exact ⟨ihs named.1, ihp named.2⟩

def mentions (t : Text) : List Text :=
  (lex t).filterMap fun
    | .letters x => some x
    | _ => none

theorem tokens_letters {good : Text → Prop} {level : Level} (tree : Tree level) (named : tree.Names good)
    {x : Text} (member : .letters x ∈ tree.tokens) : good x := by
  induction tree with
  | number n => simp [Tree.tokens] at member
  | name y =>
    have same : x = y := by simpa [Tree.tokens] using member
    exact same ▸ named
  | scaledName n y =>
    have same : x = y := by simpa [Tree.tokens] using member
    exact same ▸ named
  | group s ih => exact ih named (by simpa [Tree.tokens] using member)
  | single a ih => exact ih named member
  | scaledGroup n s ih => exact ih named (by simpa [Tree.tokens] using member)
  | first p ih => exact ih named member
  | negated p ih => exact ih named (by simpa [Tree.tokens] using member)
  | times p a ihp iha =>
    rcases (by simpa [Tree.tokens] using member : _ ∨ _) with member | member
    · exact ihp named.1 member
    · exact iha named.2 member
  | plus s p ihs ihp =>
    rcases (by simpa [Tree.tokens] using member : _ ∨ _) with member | member
    · exact ihs named.1 member
    · exact ihp named.2 member
  | minus s p ihs ihp =>
    rcases (by simpa [Tree.tokens] using member : _ ∨ _) with member | member
    · exact ihs named.1 member
    · exact ihp named.2 member

theorem mentions_text {good : Text → Prop} {level : Level} (tree : Tree level)
    (named : tree.Names fun x => IsName x ∧ good x) : ∀ x ∈ mentions tree.text, good x := by
  intro x member
  have lexed := lex_text tree (named.imp fun _ h => h.1) [] trivial
  rw [List.append_nil] at lexed
  rw [mentions, lex, lexed] at member
  obtain ⟨token, inside, is⟩ := List.mem_filterMap.mp member
  cases token with
  | letters y =>
    obtain rfl := Option.some.inj is
    exact tokens_letters tree (named.imp fun _ h => h.2) inside
  | digits text => cases is
  | symbol c => cases is
  | blank => cases is

theorem evaluate_text {env : Text → Option Int} (val : Text → Int) (tree : Tree .sum)
    (named : tree.Names fun x => IsName x ∧ env x = some (val x)) :
    evaluate env tree.text = some (tree.denote val) := by
  have lexed := lex_text tree (named.imp fun _ h => h.1) [] trivial
  obtain ⟨frame, read, part, unit⟩ := reads_tree tree (named.imp fun _ h => h.2) []
  rw [List.append_nil] at lexed
  rw [evaluate, lex, lexed, read]
  simp [close_of_reads part unit]

end Expression
