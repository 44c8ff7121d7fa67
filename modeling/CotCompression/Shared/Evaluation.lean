import CotCompression.Shared.Expression

set_option autoImplicit false

-- Rules for the value of a text put together from texts whose values are known.
namespace Expression

open Text (lit decimal)

variable {env : Text → Option Int} {t : Text} {value : Int}

theorem lexChar_append (c : Char) (tokens : List Token) {rest : List Token} (separate : Separate rest) :
    lexChar c (tokens ++ rest) = lexChar c tokens ++ rest := by
  cases tokens with
  | nil =>
    cases rest with
    | nil => simp
    | cons token rest =>
      cases token with
      | digits text => exact separate.elim
      | letters text => exact separate.elim
      | symbol s => simp only [lexChar, List.nil_append]; grind
      | blank => simp only [lexChar, List.nil_append]; grind
  | cons token tokens => cases token <;> simp only [lexChar, List.cons_append] <;> grind

theorem lex_before (t : Text) {rest : List Token} (separate : Separate rest) :
    t.foldr lexChar rest = lex t ++ rest := by
  induction t with
  | nil => rfl
  | cons c t ih => rw [List.foldr_cons, ih, lexChar_append c _ separate, lex, lex, List.foldr_cons]

theorem lex_number (n : Nat) : lex (decimal n) = [.digits (decimal n)] := lex_decimal n (by simp)

theorem lex_negSucc (n : Nat) : lex (decimal (.negSucc n)) = [.symbol '-', .digits (decimal (n + 1 : Nat))] :=
  congrArg (Token.symbol '-' :: ·) (lex_number (n + 1))

theorem lex_int (z : Int) {rest : List Token} (apart : ∀ text more, rest ≠ .digits text :: more) :
    (decimal z).foldr lexChar rest = lex (decimal z) ++ rest := by
  cases z with
  | ofNat n => exact (lex_decimal n apart).trans (congrArg (· ++ rest) (lex_number n).symm)
  | negSucc n =>
    rw [lex_negSucc]
    exact congrArg (Token.symbol '-' :: ·) (lex_decimal (n + 1) apart)

theorem step_above {frame next : Frame} {outer rest : List Frame} {token : Token} (below : List Frame)
    (taken : step env (frame, outer) token = some (next, rest)) :
    step env (frame, outer ++ below) token = some (next, rest ++ below) := by
  unfold step at taken
  split at taken
  · obtain ⟨rfl, rfl⟩ := Prod.mk.inj (Option.some.inj taken)
    rfl
  · next same =>
    obtain ⟨rfl, rfl⟩ := Prod.mk.inj same
    obtain ⟨filled, supplied, taken⟩ := Option.bind_eq_some_iff.mp taken
    obtain ⟨rfl, rfl⟩ := Prod.mk.inj (Option.some.inj taken)
    simp [step, supplied]
  · next same =>
    obtain ⟨rfl, rfl⟩ := Prod.mk.inj same
    obtain ⟨value, known, taken⟩ := Option.bind_eq_some_iff.mp taken
    obtain ⟨rfl, rfl⟩ := Prod.mk.inj (Option.some.inj taken)
    simp [step, known]
  · next same =>
    obtain ⟨rfl, rfl⟩ := Prod.mk.inj same
    obtain ⟨rfl, rfl⟩ := Prod.mk.inj (Option.some.inj taken)
    rfl
  · next same =>
    obtain ⟨rfl, rfl⟩ := Prod.mk.inj same
    obtain ⟨value, closed, taken⟩ := Option.bind_eq_some_iff.mp taken
    -- a bracket closes into the frame below it, so there is one
    cases outer with
    | nil => cases taken
    | cons parent outer =>
      obtain ⟨rfl, rfl⟩ := Prod.mk.inj (Option.some.inj taken)
      simp [step, closed]
  · next same =>
    obtain ⟨rfl, rfl⟩ := Prod.mk.inj same
    obtain ⟨total, closed, taken⟩ := Option.bind_eq_some_iff.mp taken
    obtain ⟨rfl, rfl⟩ := Prod.mk.inj (Option.some.inj taken)
    simp [step, closed]
  · next same =>
    obtain ⟨rfl, rfl⟩ := Prod.mk.inj same
    cases part : frame.part <;> simp_all [step, Option.bind_eq_some_iff]
  · next same =>
    obtain ⟨rfl, rfl⟩ := Prod.mk.inj same
    cases part : frame.part <;> simp_all [step]
  · cases taken

theorem readTokens_above {frame next : Frame} {outer rest : List Frame} {tokens : List Token} (below : List Frame)
    (read : readTokens env tokens (frame, outer) = some (next, rest)) :
    readTokens env tokens (frame, outer ++ below) = some (next, rest ++ below) := by
  induction tokens generalizing frame outer with
  | nil =>
    obtain ⟨rfl, rfl⟩ := Prod.mk.inj (Option.some.inj read)
    rfl
  | cons token tokens ih =>
    rw [readTokens_cons] at read ⊢
    obtain ⟨⟨middle, between⟩, first, read⟩ := Option.bind_eq_some_iff.mp read
    rw [step_above below first]
    exact ih read

theorem evaluate_eq_some : evaluate env t = some value ↔
    ∃ frame : Frame, readTokens env (lex t) ({}, []) = some (frame, []) ∧ frame.close = some value := by
  rw [evaluate]
  cases read : readTokens env (lex t) ({}, []) with
  | none => simp
  | some stack =>
    obtain ⟨frame, outer⟩ := stack
    cases outer <;> simp

structure Operand (env : Text → Option Int) (t : Text) (value : Int) : Prop where
  apart (text : Text) (more : List Token) : lex t ≠ .digits text :: more
  reads (frame : Frame) (outer : List Frame) :
    readTokens env (lex t) (frame, outer) = some (frame.beside value, outer)

theorem operand_name {x : Text} (named : IsName x) (known : env x = some value) : Operand env x value := by
  have single : lex x = [.letters x] := lex_letters named (by simp)
  constructor
  · simp [single]
  · intro frame outer
    simp [single, readTokens_cons, step, known, readTokens_nil]

theorem operand_group (inside : evaluate env t = some value) : Operand env (lit "(" ++ t ++ lit ")") value := by
  have tokens : lex (lit "(" ++ t ++ lit ")") = .symbol '(' :: (lex t ++ [.symbol ')']) := by
    have bracketed := lex_bracketed (fun rest separate => lex_before t separate) []
    rwa [List.append_nil] at bracketed
  obtain ⟨inner, read, closed⟩ := evaluate_eq_some.mp inside
  constructor
  · rw [tokens]
    simp
  · intro frame outer
    have above := readTokens_above (frame :: outer) read
    rw [tokens, readTokens_cons]
    change readTokens env (lex t ++ [.symbol ')']) ({}, [] ++ (frame :: outer)) = _
    rw [readTokens_append, above]
    change (step env (inner, frame :: outer) (.symbol ')')).bind _ = _
    simp [step, closed]

theorem evaluate_operand (operand : Operand env t value) : evaluate env t = some value := by
  refine evaluate_eq_some.mpr ⟨_, operand.reads {} [], ?_⟩
  simp [Frame.beside, Frame.given, Frame.close]

theorem readTokens_int (env : Text → Option Int) (z : Int) : ∃ sign product : Int,
    readTokens env (lex (decimal z)) ({}, []) = some (⟨0, sign, .factor product⟩, []) ∧ sign * product = z := by
  cases z with
  | ofNat n =>
    refine ⟨1, n, ?_, one_mul _⟩
    change readTokens env (lex (decimal n)) _ = _
    simp [lex_number, readTokens_cons, step, Frame.supply, Frame.given, readTokens_nil]
  | negSucc n =>
    refine ⟨-1, (n + 1 : Nat), ?_, by omega⟩
    rw [lex_negSucc, readTokens_cons]
    change readTokens env [.digits (decimal (n + 1 : Nat))] (⟨0, -1, .operand⟩, []) = _
    rw [readTokens_cons, step]
    simp only [Frame.supply, Frame.given, Text.natOf_decimal]
    rfl

theorem evaluate_decimal (env : Text → Option Int) (z : Int) : evaluate env (decimal z) = some z := by
  obtain ⟨sign, product, read, is⟩ := readTokens_int env z
  exact evaluate_eq_some.mpr ⟨_, read, by simp [Frame.close, is]⟩

theorem evaluate_beside (z : Int) (operand : Operand env t value) :
    evaluate env (decimal z ++ t) = some (z * value) := by
  obtain ⟨sign, product, read, is⟩ := readTokens_int env z
  have tokens : lex (decimal z ++ t) = lex (decimal z) ++ lex t := by
    rw [lex, List.foldr_append]
    exact lex_int z operand.apart
  refine evaluate_eq_some.mpr ⟨⟨0, sign, .factor (product * value)⟩, ?_, ?_⟩
  · rw [tokens, readTokens_append, read, Option.bind_some, operand.reads]
    rfl
  · simp [Frame.close, ← is, mul_assoc]

theorem evaluate_operator {left op : Text} {frame after : Frame} (c : Char) (n : Nat)
    (symbol : ∀ rest, op.foldr lexChar rest = .blank :: .symbol c :: .blank :: rest)
    (read : readTokens env (lex left) ({}, []) = some (frame, []))
    (taken : step env (frame, []) (.symbol c) = some (after, [])) (waiting : ∀ value, after.part ≠ .factor value) :
    evaluate env (left ++ op ++ decimal n) = (after.given n).close := by
  have tokens : lex (left ++ op ++ decimal n) = lex left ++ .blank :: .symbol c :: .blank :: lex (decimal n) := by
    have right : (decimal n).foldr lexChar [] = lex (decimal n) ++ [] := lex_before (decimal n) trivial
    have infixed := lex_infix symbol (fun rest separate => lex_before left separate) right
    rwa [List.append_nil] at infixed
  have number : step env (after, []) (.digits (decimal n)) = some (after.given n, []) := by
    cases part : after.part <;> simp_all [step, Frame.supply]
  have whole : readTokens env (lex (left ++ op ++ decimal n)) ({}, []) = some (after.given n, []) := by
    rw [tokens, lex_number, readTokens_append, read, Option.bind_some, readTokens_cons]
    change (readTokens env (.symbol c :: _) (frame, [])) = _
    rw [readTokens_cons, taken, Option.bind_some, readTokens_cons]
    change (readTokens env [.digits (decimal n)] (after, [])) = _
    rw [readTokens_cons, number]
    rfl
  rw [evaluate, whole]
  rfl

theorem evaluate_times (env : Text → Option Int) (z : Int) (n : Nat) :
    evaluate env (decimal z ++ lit " * " ++ decimal n) = some (z * n) := by
  obtain ⟨sign, product, read, is⟩ := readTokens_int env z
  rw [evaluate_operator '*' n (fun _ => rfl) read rfl (by simp)]
  simp [Frame.given, Frame.close, ← is, mul_assoc]

theorem evaluate_plus (left : evaluate env t = some value) (n : Nat) :
    evaluate env (t ++ lit " + " ++ decimal n) = some (value + n) := by
  obtain ⟨frame, read, closed⟩ := evaluate_eq_some.mp left
  have taken : step env (frame, []) (.symbol '+') = some (⟨value, 1, .operand⟩, []) := by simp [step, closed]
  rw [evaluate_operator '+' n (fun _ => rfl) read taken (by simp)]
  simp [Frame.given, Frame.close]

theorem evaluate_minus (left : evaluate env t = some value) (n : Nat) :
    evaluate env (t ++ lit " - " ++ decimal n) = some (value - n) := by
  obtain ⟨frame, read, closed⟩ := evaluate_eq_some.mp left
  -- a frame that closes is past its opening, so this is no sign
  have taken : step env (frame, []) (.symbol '-') = some (⟨value, -1, .operand⟩, []) := by
    cases part : frame.part with
    | opening => simp [Frame.close, part] at closed
    | operand => simp [Frame.close, part] at closed
    | times product => simp [Frame.close, part] at closed
    | factor product => simp [step, part, closed]
  rw [evaluate_operator '-' n (fun _ => rfl) read taken (by simp)]
  simp [Frame.given, Frame.close, sub_eq_add_neg]

end Expression
