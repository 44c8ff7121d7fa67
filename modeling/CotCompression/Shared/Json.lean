import CotCompression.Shared.Dict
import CotCompression.Shared.Text

set_option autoImplicit false

-- Python's json: a value written out on one line and read back.
namespace Json

open Text (lit decimal intOf)

/-- What json.loads returns; a float is kept as it is spelled. -/
inductive Value where
  | null
  | bool (value : Bool)
  | int (n : Int)
  | float (spelling : Text)
  | string (text : Text)
  | array (items : List Value)
  | object (fields : List (Text × Value))

section Encoder

-- "\\u{:04x}"
def unicode (n : Nat) : Text :=
  ['\\', 'u', Nat.digitChar (n / 4096), Nat.digitChar (n / 256 % 16), Nat.digitChar (n / 16 % 16),
    Nat.digitChar (n % 16)]

variable (ensureAscii : Bool)

def escape (c : Char) : Text :=
  if c = '\\' then lit "\\\\"
  else if c = '"' then lit "\\\""
  else if c = '\n' then lit "\\n"
  else if c = '\r' then lit "\\r"
  else if c = '\t' then lit "\\t"
  else if c.toNat = 8 then lit "\\b"
  else if c.toNat = 12 then lit "\\f"
  else if c.toNat < 32 then unicode c.toNat
  else if ensureAscii && decide (126 < c.toNat) then
    if c.toNat < 65536 then unicode c.toNat
    else unicode (0xd800 + (c.toNat - 65536) / 1024) ++ unicode (0xdc00 + (c.toNat - 65536) % 1024)
  else [c]

def quoted (text : Text) : Text := '"' :: (text.flatMap (escape ensureAscii) ++ ['"'])

mutual

def dumps : Value → Text
  | .null => lit "null"
  | .bool true => lit "true"
  | .bool false => lit "false"
  | .int n => decimal n
  | .float spelling => spelling
  | .string text => quoted ensureAscii text
  | .array items => '[' :: (Text.join (lit ", ") (dumpItems items) ++ [']'])
  | .object fields => '{' :: (Text.join (lit ", ") (dumpFields fields) ++ ['}'])

def dumpItems : List Value → List Text
  | [] => []
  | item :: items => dumps item :: dumpItems items

def dumpFields : List (Text × Value) → List Text
  | [] => []
  | field :: fields => dumpField field :: dumpFields fields

def dumpField : Text × Value → Text
  | (key, value) => quoted ensureAscii key ++ lit ": " ++ dumps value

end

end Encoder

section Decoder

def hexValue (c : Char) : Option Nat :=
  if '0' ≤ c ∧ c ≤ '9' then some (c.toNat - 48)
  else if 'a' ≤ c ∧ c ≤ 'f' then some (c.toNat - 87)
  else if 'A' ≤ c ∧ c ≤ 'F' then some (c.toNat - 55)
  else none

def hexUnit (a b c d : Char) : Option Nat := do
  return 4096 * (← hexValue a) + 256 * (← hexValue b) + 16 * (← hexValue c) + (← hexValue d)

def backslash : Char → Option Nat
  | '"' => some 34
  | '\\' => some 92
  | '/' => some 47
  | 'b' => some 8
  | 'f' => some 12
  | 'n' => some 10
  | 'r' => some 13
  | 't' => some 9
  | _ => none

def scanUnits : Text → Option (List Nat × Text)
  | [] => none
  | '"' :: rest => some ([], rest)
  | '\\' :: 'u' :: a :: b :: c :: d :: rest => do
    let unit ← hexUnit a b c d
    let (units, rest) ← scanUnits rest
    return (unit :: units, rest)
  | '\\' :: c :: rest => do
    let unit ← backslash c
    let (units, rest) ← scanUnits rest
    return (unit :: units, rest)
  | c :: rest =>
    if c.toNat < 32 ∨ c = '\\' then none
    else do
      let (units, rest) ← scanUnits rest
      return (c.toNat :: units, rest)

def isHigh (unit : Nat) : Bool := decide (0xd800 ≤ unit ∧ unit < 0xdc00)

def isLow (unit : Nat) : Bool := decide (0xdc00 ≤ unit ∧ unit < 0xe000)

/-- A lone surrogate is not a character of a Text. -/
def unitChar (unit : Nat) : Option Char := if isHigh unit || isLow unit then none else some (Char.ofNat unit)

def joinUnits : List Nat → Option Text
  | [] => some []
  | [unit] => do return [← unitChar unit]
  | high :: low :: units =>
    if isHigh high && isLow low then do
      return Char.ofNat (65536 + (high - 0xd800) * 1024 + (low - 0xdc00)) :: (← joinUnits units)
    else do
      return (← unitChar high) :: (← joinUnits (low :: units))

-- scanstring
def scanString (t : Text) : Option (Text × Text) := do
  let (units, rest) ← scanUnits t
  return (← joinUnits units, rest)

def isBlank (c : Char) : Bool := c = ' ' || c = '\t' || c = '\n' || c = '\r'

def skip (t : Text) : Text := t.dropWhile isBlank

-- -?(?:0|[1-9][0-9]*)
def scanInt (t : Text) : Option (Text × Text) :=
  let (sign, body) : Text × Text := match t with
    | '-' :: body => (['-'], body)
    | body => ([], body)
  match body with
  | '0' :: rest => some (sign ++ ['0'], rest)
  | c :: rest =>
    if c.isDigit then some (sign ++ c :: rest.takeWhile Char.isDigit, rest.dropWhile Char.isDigit) else none
  | [] => none

-- (\.[0-9]+)?
def scanFraction : Text → Text × Text
  | '.' :: rest =>
    if (rest.takeWhile Char.isDigit).isEmpty then ([], '.' :: rest)
    else ('.' :: rest.takeWhile Char.isDigit, rest.dropWhile Char.isDigit)
  | rest => ([], rest)

-- ([eE][-+]?[0-9]+)?
def scanExponent : Text → Text × Text
  | [] => ([], [])
  | e :: rest =>
    let (sign, digits) : Text × Text := match rest with
      | '-' :: digits => (['-'], digits)
      | '+' :: digits => (['+'], digits)
      | digits => ([], digits)
    if (e = 'e' ∨ e = 'E') ∧ ¬ (digits.takeWhile Char.isDigit).isEmpty then
      (e :: sign ++ digits.takeWhile Char.isDigit, digits.dropWhile Char.isDigit)
    else ([], e :: rest)

def scanNumber (t : Text) : Option (Value × Text) := do
  let (whole, rest) ← scanInt t
  let (fraction, rest) := scanFraction rest
  let (exponent, rest) := scanExponent rest
  if fraction.isEmpty && exponent.isEmpty then return (.int (intOf whole), rest)
  else return (.float (whole ++ fraction ++ exponent), rest)

/-- The literals of the scanner; the first three are floats. -/
def constants : List (Text × Value) :=
  [(lit "NaN", .float (lit "NaN")), (lit "Infinity", .float (lit "Infinity")),
    (lit "-Infinity", .float (lit "-Infinity")), (lit "null", .null), (lit "true", .bool true),
    (lit "false", .bool false)]

def scanConstant (t : Text) : Option (Value × Text) :=
  (constants.find? fun entry => entry.1.isPrefixOf t).map fun entry => (entry.2, t.drop entry.1.length)

def pairsDict (fields : List (Text × Value)) : List (Text × Value) :=
  fields.foldl (fun entries field => Dict.setEntry field.1 field.2 entries) []

mutual

def scanOnce : Nat → Text → Option (Value × Text)
  | 0, _ => none
  | _ + 1, '"' :: rest => do
    let (text, rest) ← scanString rest
    return (.string text, rest)
  | fuel + 1, '[' :: rest =>
    match skip rest with
    | ']' :: rest => some (.array [], rest)
    | rest => do
      let (items, rest) ← scanItems fuel rest
      return (.array items, rest)
  | fuel + 1, '{' :: rest =>
    match skip rest with
    | '}' :: rest => some (.object [], rest)
    | rest => do
      let (fields, rest) ← scanFields fuel rest
      return (.object (pairsDict fields), rest)
  | _ + 1, t => (scanConstant t).or (scanNumber t)

def scanItems : Nat → Text → Option (List Value × Text)
  | 0, _ => none
  | fuel + 1, t => do
    let (item, rest) ← scanOnce fuel t
    match skip rest with
    | ']' :: rest => return ([item], rest)
    | ',' :: rest =>
      let (items, rest) ← scanItems fuel (skip rest)
      return (item :: items, rest)
    | _ => none

def scanFields : Nat → Text → Option (List (Text × Value) × Text)
  | fuel + 1, '"' :: t => do
    let (key, rest) ← scanString t
    match skip rest with
    | ':' :: rest =>
      let (value, rest) ← scanOnce fuel (skip rest)
      match skip rest with
      | '}' :: rest => return ([(key, value)], rest)
      | ',' :: rest =>
        let (fields, rest) ← scanFields fuel (skip rest)
        return ((key, value) :: fields, rest)
      | _ => none
    | _ => none
  | _, _ => none

end

def loads (t : Text) : Option Value :=
  if t.head? = some (Char.ofNat 0xfeff) then none
  else
    match scanOnce (t.length + 1) (skip t) with
    | some (value, rest) => if skip rest = [] then some value else none
    | none => none

end Decoder

section Strings

variable {ensureAscii : Bool}

theorem hexValue_digitChar {n : Nat} (small : n < 16) : hexValue (Nat.digitChar n) = some n := by
  have table : ∀ n < 16, hexValue (Nat.digitChar n) = some n := by decide
  exact table n small

theorem scanUnits_unicode {n : Nat} (small : n < 65536) (rest : Text) :
    scanUnits (unicode n ++ rest) = (scanUnits rest).map fun read => (n :: read.1, read.2) := by
  have unit : hexUnit (Nat.digitChar (n / 4096)) (Nat.digitChar (n / 256 % 16)) (Nat.digitChar (n / 16 % 16))
      (Nat.digitChar (n % 16)) = some n := by
    rw [hexUnit, hexValue_digitChar (by omega), hexValue_digitChar (by omega), hexValue_digitChar (by omega),
      hexValue_digitChar (by omega)]
    simp only [Option.bind_eq_bind, Option.bind_some, Option.pure_def, Option.some.injEq]
    omega
  simp only [unicode, List.cons_append, List.nil_append, scanUnits, unit, Option.bind_eq_bind, Option.bind_some]
  cases scanUnits rest <;> rfl

def unitsOf (ensureAscii : Bool) (c : Char) : List Nat :=
  if ensureAscii && decide (65536 ≤ c.toNat) then
    [0xd800 + (c.toNat - 65536) / 1024, 0xdc00 + (c.toNat - 65536) % 1024]
  else [c.toNat]

theorem scanUnits_plain {c : Char} (quote : c ≠ '"') (slash : c ≠ '\\') (printable : ¬ c.toNat < 32) (rest : Text) :
    scanUnits (c :: rest) = (scanUnits rest).map fun read => (c.toNat :: read.1, read.2) := by
  rw [scanUnits.eq_5 c rest (by simp [quote]) (by simp [slash]) (by simp [slash]), if_neg (by simp [printable, slash])]
  cases scanUnits rest <;> rfl

theorem toNat_lt (c : Char) : c.toNat < 1114112 := by
  have valid := c.valid
  rcases valid with small | ⟨_, small⟩ <;> simp only [Char.toNat] <;> omega

theorem not_surrogate (c : Char) : ¬ (0xd800 ≤ c.toNat ∧ c.toNat < 0xe000) := by
  have valid := c.valid
  rcases valid with small | ⟨large, _⟩ <;> simp only [Char.toNat] <;> omega

theorem scanUnits_backslash {d : Char} {unit : Nat} (known : backslash d = some unit) (rest : Text) :
    scanUnits ('\\' :: d :: rest) = (scanUnits rest).map fun read => (unit :: read.1, read.2) := by
  have other : d ≠ 'u' := by
    rintro rfl
    cases known
  rw [scanUnits.eq_4 d rest (by simp [other]), known]
  cases scanUnits rest <;> rfl

theorem scanUnits_escape (c : Char) (rest : Text) : scanUnits (escape ensureAscii c ++ rest) =
    (scanUnits rest).map fun read => (unitsOf ensureAscii c ++ read.1, read.2) := by
  have top := toNat_lt c
  have single (low : c.toNat < 65536) : unitsOf ensureAscii c = [c.toNat] := by simp [unitsOf, low]
  have short {d : Char} (known : backslash d = some c.toNat) (low : c.toNat < 65536) :
      scanUnits (['\\', d] ++ rest) =
        (scanUnits rest).map fun read => (unitsOf ensureAscii c ++ read.1, read.2) := by
    rw [single low]
    exact scanUnits_backslash known rest
  rw [escape]
  by_cases slash : c = '\\'
  · subst slash
    exact short rfl (by decide)
  rw [if_neg slash]
  by_cases quote : c = '"'
  · subst quote
    exact short rfl (by decide)
  rw [if_neg quote]
  by_cases newline : c = '\n'
  · subst newline
    exact short rfl (by decide)
  rw [if_neg newline]
  by_cases carriage : c = '\r'
  · subst carriage
    exact short rfl (by decide)
  rw [if_neg carriage]
  by_cases tab : c = '\t'
  · subst tab
    exact short rfl (by decide)
  rw [if_neg tab]
  by_cases back : c.toNat = 8
  · rw [if_pos back]
    exact short (by rw [back]; rfl) (by omega)
  rw [if_neg back]
  by_cases feed : c.toNat = 12
  · rw [if_pos feed]
    exact short (by rw [feed]; rfl) (by omega)
  rw [if_neg feed]
  by_cases control : c.toNat < 32
  · rw [if_pos control, single (by omega)]
    exact scanUnits_unicode (by omega) rest
  rw [if_neg control]
  by_cases ascii : ensureAscii && decide (126 < c.toNat)
  · rw [if_pos ascii]
    by_cases low : c.toNat < 65536
    · rw [if_pos low, single low]
      exact scanUnits_unicode low rest
    · have flag := (Bool.and_eq_true_iff.mp ascii).1
      have pair : unitsOf ensureAscii c =
          [0xd800 + (c.toNat - 65536) / 1024, 0xdc00 + (c.toNat - 65536) % 1024] := by
        rw [unitsOf, if_pos (by simpa [flag] using low)]
      rw [if_neg low, pair, List.append_assoc, scanUnits_unicode (by omega), scanUnits_unicode (by omega),
        Option.map_map]
      rfl
  · rw [if_neg ascii]
    have plain : unitsOf ensureAscii c = [c.toNat] := by
      rw [unitsOf, if_neg]
      simp only [Bool.and_eq_true, decide_eq_true_eq] at ascii ⊢
      exact fun ⟨flag, large⟩ => ascii ⟨flag, by omega⟩
    rw [plain]
    exact scanUnits_plain quote slash control rest

theorem unitChar_toNat (c : Char) : unitChar c.toNat = some c := by
  have valid := not_surrogate c
  have plain : (isHigh c.toNat || isLow c.toNat) = false := by
    simp only [isHigh, isLow, Bool.or_eq_false_iff, decide_eq_false_iff_not]
    omega
  rw [unitChar, plain, if_neg (by decide), Char.ofNat_toNat]

theorem joinUnits_escape (c : Char) (units : List Nat) : joinUnits (unitsOf ensureAscii c ++ units) =
    (joinUnits units).map (c :: ·) := by
  have top := toNat_lt c
  rw [unitsOf]
  split
  · next wide =>
    simp only [Bool.and_eq_true, decide_eq_true_eq] at wide
    have pair : (isHigh (0xd800 + (c.toNat - 65536) / 1024) && isLow (0xdc00 + (c.toNat - 65536) % 1024)) = true := by
      simp only [isHigh, isLow, Bool.and_eq_true, decide_eq_true_eq]
      omega
    have value : 65536 + (0xd800 + (c.toNat - 65536) / 1024 - 0xd800) * 1024 +
        (0xdc00 + (c.toNat - 65536) % 1024 - 0xdc00) = c.toNat := by omega
    rw [List.cons_append, List.cons_append, List.nil_append, joinUnits, if_pos pair, value, Char.ofNat_toNat]
    cases joinUnits units <;> rfl
  · have valid := not_surrogate c
    have low : isHigh c.toNat = false := by
      simp only [isHigh, decide_eq_false_iff_not]
      omega
    cases units with
    | nil =>
      rw [List.append_nil, joinUnits.eq_2, unitChar_toNat]
      rfl
    | cons unit units =>
      rw [List.cons_append, List.nil_append, joinUnits, low, Bool.false_and, if_neg (by decide), unitChar_toNat]
      cases joinUnits (unit :: units) <;> rfl

theorem scanUnits_text (text rest : Text) : scanUnits (text.flatMap (escape ensureAscii) ++ '"' :: rest) =
    some (text.flatMap (unitsOf ensureAscii), rest) := by
  induction text with
  | nil => rfl
  | cons c text ih =>
    rw [List.flatMap_cons, List.append_assoc, scanUnits_escape, ih, List.flatMap_cons]
    rfl

theorem joinUnits_text (text : Text) : joinUnits (text.flatMap (unitsOf ensureAscii)) = some text := by
  induction text with
  | nil => rfl
  | cons c text ih =>
    rw [List.flatMap_cons, joinUnits_escape, ih]
    rfl

theorem scanString_quoted (text rest : Text) :
    scanString (text.flatMap (escape ensureAscii) ++ '"' :: rest) = some (text, rest) := by
  rw [scanString, scanUnits_text]
  simp [joinUnits_text]

end Strings

def Follows (rest : Text) : Prop := ∀ c ∈ rest.head?, c = ',' ∨ c = ']' ∨ c = '}'

section Numbers

theorem toDigits_isDigit (n : Nat) : ∀ c ∈ Nat.toDigits 10 n, c.isDigit = true :=
  Text.forall_toDigits (by decide) n

-- No number but zero starts with a zero.
theorem toDigits_head {n : Nat} (positive : n ≠ 0) :
    ∃ c digits, Nat.toDigits 10 n = c :: digits ∧ c ≠ '0' := by
  induction n using Nat.strongRecOn with
  | ind n ih =>
    rw [Nat.toDigits_eq_if (by omega)]
    split
    · next small =>
      have table : ∀ n < 10, n ≠ 0 → Nat.digitChar n ≠ '0' := by decide
      exact ⟨_, [], rfl, table n small positive⟩
    · next large =>
      obtain ⟨c, digits, shape, leading⟩ := ih (n / 10) (by omega) (by omega)
      exact ⟨c, digits ++ [Nat.digitChar (n % 10)], by rw [shape]; rfl, leading⟩

theorem span_digits {digits rest : Text} (all : ∀ c ∈ digits, c.isDigit = true) (follows : Follows rest) :
    (digits ++ rest).takeWhile Char.isDigit = digits ∧ (digits ++ rest).dropWhile Char.isDigit = rest := by
  have stop : rest.takeWhile Char.isDigit = [] ∧ rest.dropWhile Char.isDigit = rest := by
    cases rest with
    | nil => exact ⟨rfl, rfl⟩
    | cons c rest =>
      have other : c.isDigit = false := by rcases follows c rfl with rfl | rfl | rfl <;> decide
      simp [other]
  rw [List.takeWhile_append_of_pos all, List.dropWhile_append_of_pos all, stop.1, stop.2, List.append_nil]
  exact ⟨rfl, rfl⟩

theorem scanInt_toDigits (n : Nat) {rest : Text} (follows : Follows rest) :
    scanInt (Nat.toDigits 10 n ++ rest) = some (Nat.toDigits 10 n, rest) ∧
      scanInt ('-' :: (Nat.toDigits 10 n ++ rest)) = some ('-' :: Nat.toDigits 10 n, rest) := by
  by_cases zero : n = 0
  · subst zero
    exact ⟨rfl, rfl⟩
  · obtain ⟨c, digits, shape, leading⟩ := toDigits_head zero
    have all := toDigits_isDigit n
    rw [shape] at all ⊢
    obtain ⟨first, others⟩ := List.forall_mem_cons.mp all
    obtain ⟨taken, dropped⟩ := span_digits others follows
    have plain : c ≠ '-' := by
      rintro rfl
      cases first
    constructor <;> simp [scanInt, plain, first, taken, dropped]

theorem scanInt_decimal (n : Int) {rest : Text} (follows : Follows rest) :
    scanInt (decimal n ++ rest) = some (decimal n, rest) := by
  cases n with
  | ofNat n => exact (scanInt_toDigits n follows).1
  | negSucc n => exact (scanInt_toDigits (n + 1) follows).2

theorem scanNumber_decimal (n : Int) {rest : Text} (follows : Follows rest) :
    scanNumber (decimal n ++ rest) = some (.int n, rest) := by
  have ends : scanFraction rest = ([], rest) ∧ scanExponent rest = ([], rest) := by
    cases rest with
    | nil => exact ⟨rfl, rfl⟩
    | cons c rest => rcases follows c rfl with rfl | rfl | rfl <;> exact ⟨rfl, by simp [scanExponent]⟩
  simp [scanNumber, scanInt_decimal n follows, ends, Text.intOf_decimal]

theorem scanConstant_decimal (n : Int) (rest : Text) : scanConstant (decimal n ++ rest) = none := by
  have first : ∃ c more, decimal n ++ rest = c :: more ∧
      (c.isDigit = true ∨ c = '-' ∧ ∀ d ∈ more.head?, d.isDigit = true) := by
    have digit (n : Nat) : ∃ c more, Nat.toDigits 10 n ++ rest = c :: more ∧ c.isDigit = true := by
      obtain ⟨c, digits, shape⟩ := List.exists_cons_of_ne_nil (Nat.toDigits_ne_nil : Nat.toDigits 10 n ≠ [])
      exact ⟨c, digits ++ rest, by rw [shape]; rfl, toDigits_isDigit n c (by rw [shape]; simp)⟩
    cases n with
    | ofNat n =>
      obtain ⟨c, more, shape, first⟩ := digit n
      exact ⟨c, more, shape, .inl first⟩
    | negSucc n =>
      obtain ⟨c, more, shape, first⟩ := digit (n + 1)
      refine ⟨'-', Nat.toDigits 10 (n + 1) ++ rest, rfl, .inr ⟨rfl, fun d head => ?_⟩⟩
      rw [shape] at head
      obtain rfl := Option.some.inj head
      exact first
  obtain ⟨c, more, shape, first⟩ := first
  rw [shape, scanConstant, Option.map_eq_none_iff, List.find?_eq_none]
  intro entry member starts
  rw [List.isPrefixOf_iff_prefix] at starts
  rcases first with digit | ⟨rfl, digit⟩
  · simp only [constants, List.mem_cons, List.not_mem_nil, or_false] at member
    rcases member with rfl | rfl | rfl | rfl | rfl | rfl <;>
      (obtain ⟨rfl, -⟩ := List.cons_prefix_cons.mp starts; cases digit)
  · simp only [constants, List.mem_cons, List.not_mem_nil, or_false] at member
    rcases member with rfl | rfl | rfl | rfl | rfl | rfl
    · exact absurd (List.cons_prefix_cons.mp starts).1 (by decide)
    · exact absurd (List.cons_prefix_cons.mp starts).1 (by decide)
    · obtain ⟨rest, same⟩ := (List.cons_prefix_cons.mp starts).2
      have capital := digit 'I' (by rw [← same]; rfl)
      cases capital
    · exact absurd (List.cons_prefix_cons.mp starts).1 (by decide)
    · exact absurd (List.cons_prefix_cons.mp starts).1 (by decide)
    · exact absurd (List.cons_prefix_cons.mp starts).1 (by decide)

end Numbers

section RoundTrip

mutual

def Value.Exact : Value → Prop
  | .float _ => False
  | .array items => ExactItems items
  | .object fields => (fields.map Prod.fst).Nodup ∧ ExactFields fields
  | _ => True

def ExactItems : List Value → Prop
  | [] => True
  | item :: items => item.Exact ∧ ExactItems items

def ExactFields : List (Text × Value) → Prop
  | [] => True
  | field :: fields => ExactField field ∧ ExactFields fields

def ExactField : Text × Value → Prop
  | (_, value) => value.Exact

end

variable {ensureAscii : Bool}

theorem pairsDict_distinct {fields : List (Text × Value)} (distinct : (fields.map Prod.fst).Nodup) :
    pairsDict fields = fields := by
  have appended : ∀ (entries fields : List (Text × Value)), ((entries ++ fields).map Prod.fst).Nodup →
      fields.foldl (fun entries field => Dict.setEntry field.1 field.2 entries) entries = entries ++ fields := by
    intro entries fields
    induction fields generalizing entries with
    | nil => simp
    | cons field fields ih =>
      intro distinct
      have new : field.1 ∉ entries.map Prod.fst := by
        rw [List.map_append, List.map_cons, List.nodup_append] at distinct
        exact fun member => distinct.2.2 _ member _ (by simp) rfl
      rw [List.foldl_cons, Dict.setEntry_new new, ih _ (by simpa using distinct)]
      simp
  exact appended [] fields distinct

theorem skip_solid {c : Char} (rest : Text) (solid : isBlank c = false) : skip (c :: rest) = c :: rest := by
  simp [skip, solid]

theorem skip_space (rest : Text) : skip (' ' :: rest) = skip rest := rfl

theorem dumps_head (v : Value) (exact : v.Exact) :
    ∃ c rest, dumps ensureAscii v = c :: rest ∧ isBlank c = false ∧ c ≠ ']' ∧ c.toNat < 127 := by
  cases v with
  | null => exact ⟨_, _, rfl, by decide, by decide, by decide⟩
  | bool value => cases value <;> exact ⟨_, _, rfl, by decide, by decide, by decide⟩
  | int n =>
    obtain ⟨c, digits, shape⟩ := List.exists_cons_of_ne_nil (Text.decimal_ne_nil n)
    have solid : isBlank c = false ∧ c ≠ ']' ∧ c.toNat < 127 :=
      Text.forall_decimal (p := fun c => isBlank c = false ∧ c ≠ ']' ∧ c.toNat < 127) (by decide) (by decide) n c
        (by rw [shape]; simp)
    exact ⟨c, digits, shape, solid⟩
  | float spelling => exact exact.elim
  | string text => exact ⟨_, _, rfl, by decide, by decide, by decide⟩
  | array items => exact ⟨_, _, rfl, by decide, by decide, by decide⟩
  | object fields => exact ⟨_, _, rfl, by decide, by decide, by decide⟩

theorem joinItems_cons (item next : Value) (items : List Value) :
    Text.join (lit ", ") (dumpItems ensureAscii (item :: next :: items)) = dumps ensureAscii item ++
      ',' :: ' ' :: Text.join (lit ", ") (dumpItems ensureAscii (next :: items)) := by
  rw [dumpItems, dumpItems, Text.join_cons_cons, List.append_assoc]
  rfl

theorem joinFields_cons (key : Text) (value : Value) (next : Text × Value) (fields : List (Text × Value)) :
    Text.join (lit ", ") (dumpFields ensureAscii ((key, value) :: next :: fields)) =
      '"' :: (key.flatMap (escape ensureAscii) ++ '"' :: ':' :: ' ' :: (dumps ensureAscii value ++
        ',' :: ' ' :: Text.join (lit ", ") (dumpFields ensureAscii (next :: fields)))) := by
  rw [dumpFields, dumpFields, Text.join_cons_cons, dumpField]
  simp [quoted, lit]

theorem joinFields_single (key : Text) (value : Value) :
    Text.join (lit ", ") (dumpFields ensureAscii [(key, value)]) =
      '"' :: (key.flatMap (escape ensureAscii) ++ '"' :: ':' :: ' ' :: dumps ensureAscii value) := by
  rw [dumpFields, dumpFields, Text.join_singleton, dumpField]
  simp [quoted, lit]

theorem joinItems_head (item : Value) (items : List Value) (exact : item.Exact) :
    ∃ c rest, Text.join (lit ", ") (dumpItems ensureAscii (item :: items)) = c :: rest ∧
      isBlank c = false ∧ c ≠ ']' := by
  obtain ⟨c, rest, shape, solid, opens, -⟩ := @dumps_head ensureAscii item exact
  cases items with
  | nil => exact ⟨c, rest, by rw [dumpItems, dumpItems, Text.join_singleton, shape], solid, opens⟩
  | cons next items => exact ⟨c, _, by rw [joinItems_cons, shape, List.cons_append], solid, opens⟩

theorem joinFields_head (key : Text) (value : Value) (fields : List (Text × Value)) :
    ∃ rest, Text.join (lit ", ") (dumpFields ensureAscii ((key, value) :: fields)) = '"' :: rest := by
  cases fields with
  | nil => exact ⟨_, joinFields_single key value⟩
  | cons next fields => exact ⟨_, joinFields_cons key value next fields⟩

theorem scanOnce_decimal (n : Int) (fuel : Nat) {rest : Text} (follows : Follows rest) :
    scanOnce (fuel + 1) (decimal n ++ rest) = some (.int n, rest) := by
  have first : ∀ c ∈ decimal n, c ≠ '"' ∧ c ≠ '[' ∧ c ≠ '\x7b' :=
    Text.forall_decimal (by decide) (by decide) n
  have other {c : Char} (different : c ∉ decimal n) (more : Text) : decimal n ++ rest ≠ c :: more := by
    obtain ⟨d, digits, shape⟩ := List.exists_cons_of_ne_nil (Text.decimal_ne_nil n)
    rw [shape] at different ⊢
    intro same
    exact different (by rw [(List.cons.inj same).1]; simp)
  rw [scanOnce.eq_5 _ _ (other fun member => (first _ member).1 rfl) (other fun member => (first _ member).2.1 rfl)
    (other fun member => (first _ member).2.2 rfl), scanConstant_decimal, Option.none_or,
    scanNumber_decimal n follows]

theorem bracketed_length {left right : Char} {inner : Text} {fuel : Nat}
    (enough : (left :: (inner ++ [right])).length ≤ fuel + 1) : inner.length < fuel := by
  rw [List.length_cons, List.length_append, List.length_singleton] at enough
  omega

mutual

theorem scanOnce_dumps : ∀ (v : Value) (fuel : Nat) (rest : Text), v.Exact →
    (dumps ensureAscii v).length ≤ fuel → Follows rest →
    scanOnce fuel (dumps ensureAscii v ++ rest) = some (v, rest)
  | .null, fuel + 1, rest, _, _, _ => rfl
  | .bool true, fuel + 1, rest, _, _, _ => rfl
  | .bool false, fuel + 1, rest, _, _, _ => rfl
  | .int n, fuel + 1, rest, _, _, follows => scanOnce_decimal n fuel follows
  | .string text, fuel + 1, rest, _, _, _ => by
    rw [dumps, quoted, List.cons_append, List.append_assoc, scanOnce]
    simp [scanString_quoted]
  | .array [], fuel + 1, rest, _, _, _ => rfl
  | .array (item :: items), fuel + 1, rest, exact, enough, _ => by
    rw [dumps] at enough ⊢
    obtain ⟨c, more, shape, solid, opens⟩ := @joinItems_head ensureAscii item items exact.1
    have scanned := scanItems_dumps item items fuel rest exact (bracketed_length enough)
    rw [List.cons_append, List.append_assoc, List.singleton_append, scanOnce]
    rw [shape, List.cons_append] at scanned ⊢
    rw [skip_solid _ solid]
    simp [opens, scanned]
  | .object [], fuel + 1, rest, _, _, _ => rfl
  | .object ((key, value) :: fields), fuel + 1, rest, exact, enough, _ => by
    rw [dumps] at enough ⊢
    obtain ⟨more, shape⟩ := @joinFields_head ensureAscii key value fields
    have scanned := scanFields_dumps key value fields fuel rest exact.2 (bracketed_length enough)
    rw [List.cons_append, List.append_assoc, List.singleton_append, scanOnce]
    rw [shape, List.cons_append] at scanned ⊢
    rw [skip_solid _ (by decide)]
    simp [scanned, pairsDict_distinct exact.1]
  | v, 0, rest, exact, enough, _ => by
    obtain ⟨c, t, shape, -⟩ := @dumps_head ensureAscii v exact
    rw [shape] at enough
    simp at enough

theorem scanItems_dumps : ∀ (item : Value) (items : List Value) (fuel : Nat) (rest : Text),
    ExactItems (item :: items) → (Text.join (lit ", ") (dumpItems ensureAscii (item :: items))).length < fuel →
    scanItems fuel (Text.join (lit ", ") (dumpItems ensureAscii (item :: items)) ++ ']' :: rest) =
      some (item :: items, rest)
  | item, [], fuel + 1, rest, exact, enough => by
    rw [dumpItems, dumpItems, Text.join_singleton] at enough ⊢
    have first := scanOnce_dumps item fuel (']' :: rest) exact.1 (by omega) (by simp [Follows])
    rw [scanItems, first]
    rfl
  | item, next :: items, fuel + 1, rest, exact, enough => by
    obtain ⟨c, more, shape, solid, -⟩ := @joinItems_head ensureAscii next items exact.2.1
    rw [joinItems_cons, List.length_append, List.length_cons, List.length_cons] at enough
    have others := scanItems_dumps next items fuel rest exact.2 (by omega)
    rw [joinItems_cons, List.append_assoc, List.cons_append, List.cons_append]
    have first := scanOnce_dumps item fuel
      (',' :: ' ' :: (Text.join (lit ", ") (dumpItems ensureAscii (next :: items)) ++ ']' :: rest)) exact.1 (by omega)
      (by simp [Follows])
    rw [shape, List.cons_append] at first others ⊢
    rw [scanItems, first]
    simp (disch := first | assumption | decide) [skip_solid, skip_space, others]
  | _, _, 0, _, _, enough => absurd enough (Nat.not_lt_zero _)

theorem scanFields_dumps : ∀ (key : Text) (value : Value) (fields : List (Text × Value)) (fuel : Nat) (rest : Text),
    ExactFields ((key, value) :: fields) →
    (Text.join (lit ", ") (dumpFields ensureAscii ((key, value) :: fields))).length < fuel →
    scanFields fuel (Text.join (lit ", ") (dumpFields ensureAscii ((key, value) :: fields)) ++ '}' :: rest) =
      some ((key, value) :: fields, rest)
  | key, value, [], fuel + 1, rest, exact, enough => by
    obtain ⟨c, more, shape, solid, -⟩ := @dumps_head ensureAscii value exact.1
    rw [joinFields_single] at enough ⊢
    simp only [List.length_cons, List.length_append] at enough
    have first := scanOnce_dumps value fuel ('}' :: rest) exact.1 (by omega) (by simp [Follows])
    rw [List.cons_append, List.append_assoc, scanFields]
    simp only [List.cons_append, scanString_quoted]
    rw [shape, List.cons_append] at first ⊢
    simp (disch := first | assumption | decide) [skip_solid, skip_space, first]
  | key, value, (next, item) :: fields, fuel + 1, rest, exact, enough => by
    obtain ⟨c, more, shape, solid, -⟩ := @dumps_head ensureAscii value exact.1
    obtain ⟨others, opens⟩ := @joinFields_head ensureAscii next item fields
    rw [joinFields_cons] at enough ⊢
    simp only [List.length_cons, List.length_append] at enough
    have first := scanOnce_dumps value fuel
      (',' :: ' ' :: (Text.join (lit ", ") (dumpFields ensureAscii ((next, item) :: fields)) ++ '}' :: rest)) exact.1
      (by omega) (by simp [Follows])
    have later := scanFields_dumps next item fields fuel rest exact.2 (by omega)
    rw [List.cons_append, List.append_assoc, scanFields]
    simp only [List.cons_append, List.append_assoc, scanString_quoted]
    rw [shape, opens] at first ⊢
    rw [opens] at later
    simp only [List.cons_append] at first later ⊢
    simp (disch := first | assumption | decide) [skip_solid, skip_space, first, later]
  | _, _, _, 0, _, _, enough => absurd enough (Nat.not_lt_zero _)

end

theorem loads_dumps (v : Value) (exact : v.Exact) : loads (dumps ensureAscii v) = some v := by
  obtain ⟨c, rest, shape, solid, -, ascii⟩ := @dumps_head ensureAscii v exact
  have scanned := @scanOnce_dumps ensureAscii v ((dumps ensureAscii v).length + 1) [] exact (by omega)
    (by simp [Follows])
  have mark : c ≠ Char.ofNat 0xfeff := by
    rintro rfl
    exact absurd ascii (by decide)
  rw [List.append_nil] at scanned
  rw [shape] at scanned ⊢
  rw [loads, skip_solid _ solid, scanned, if_neg (by simpa using mark)]
  rfl

end RoundTrip

section Printable

variable {ensureAscii : Bool}

def Printable (ensureAscii : Bool) (c : Char) : Prop :=
  32 ≤ c.toNat ∧ (ensureAscii = true → c.toNat ≤ 126)

instance (c : Char) : Decidable (Printable ensureAscii c) := inferInstanceAs (Decidable (_ ∧ _))

theorem printable_of_ascii {c : Char} (low : 32 ≤ c.toNat) (high : c.toNat ≤ 126) : Printable ensureAscii c :=
  ⟨low, fun _ => high⟩

theorem printable_lit {text : Text} (ascii : ∀ c ∈ text, Printable true c) : ∀ c ∈ text, Printable ensureAscii c :=
  fun c member => printable_of_ascii (ascii c member).1 ((ascii c member).2 rfl)

theorem unicode_printable {n : Nat} (small : n < 65536) : ∀ c ∈ unicode n, Printable ensureAscii c := by
  have digit {d : Nat} (small : d < 16) : Printable true (Nat.digitChar d) := by
    have table : ∀ d < 16, Printable true (Nat.digitChar d) := by decide
    exact table d small
  refine printable_lit fun c member => ?_
  simp only [unicode, List.mem_cons, List.not_mem_nil, or_false] at member
  rcases member with rfl | rfl | rfl | rfl | rfl | rfl
  · decide
  · decide
  all_goals exact digit (by omega)

theorem escape_printable (c : Char) : ∀ d ∈ escape ensureAscii c, Printable ensureAscii d := by
  have top := toNat_lt c
  rw [escape]
  split
  · exact printable_lit (by decide)
  split
  · exact printable_lit (by decide)
  split
  · exact printable_lit (by decide)
  split
  · exact printable_lit (by decide)
  split
  · exact printable_lit (by decide)
  split
  · exact printable_lit (by decide)
  split
  · exact printable_lit (by decide)
  split
  · next control => exact unicode_printable (by omega)
  next visible =>
  split
  · split
    · next low => exact unicode_printable low
    · intro d member
      rcases List.mem_append.mp member with member | member
      · exact unicode_printable (by omega) d member
      · exact unicode_printable (by omega) d member
  · next plain =>
    intro d member
    obtain rfl := List.mem_singleton.mp member
    refine ⟨by omega, fun flag => ?_⟩
    simp only [flag, Bool.true_and, decide_eq_true_eq] at plain
    omega

theorem quoted_printable (text : Text) : ∀ c ∈ quoted ensureAscii text, Printable ensureAscii c := by
  intro c member
  rw [quoted, List.mem_cons, List.mem_append, List.mem_flatMap, List.mem_singleton] at member
  rcases member with rfl | ⟨d, _, member⟩ | rfl
  · exact printable_of_ascii (by decide) (by decide)
  · exact escape_printable d c member
  · exact printable_of_ascii (by decide) (by decide)

theorem bracketed_printable {opening closing : Char} {inside : Text} (first : Printable ensureAscii opening)
    (last : Printable ensureAscii closing) (each : ∀ c ∈ inside, Printable ensureAscii c) :
    ∀ c ∈ opening :: (inside ++ [closing]), Printable ensureAscii c := by
  intro c member
  rw [List.mem_cons, List.mem_append, List.mem_singleton] at member
  rcases member with rfl | member | rfl
  · exact first
  · exact each c member
  · exact last

mutual

theorem dumps_printable : ∀ v : Value, v.Exact → ∀ c ∈ dumps ensureAscii v, Printable ensureAscii c
  | .null, _ => @printable_lit _ (lit "null") (by decide)
  | .bool true, _ => @printable_lit _ (lit "true") (by decide)
  | .bool false, _ => @printable_lit _ (lit "false") (by decide)
  | .int n, _ => printable_lit (Text.forall_decimal (by decide) (by decide) n)
  | .float _, exact => exact.elim
  | .string text, _ => quoted_printable text
  | .array items, exact => bracketed_printable (printable_of_ascii (by decide) (by decide))
      (printable_of_ascii (by decide) (by decide))
      (Text.forall_join (printable_lit (by decide)) (dumpItems_printable items exact))
  | .object fields, exact => bracketed_printable (printable_of_ascii (by decide) (by decide))
      (printable_of_ascii (by decide) (by decide))
      (Text.forall_join (printable_lit (by decide)) (dumpFields_printable fields exact.2))

theorem dumpItems_printable : ∀ items : List Value, ExactItems items →
    ∀ part ∈ dumpItems ensureAscii items, ∀ c ∈ part, Printable ensureAscii c
  | [], _ => fun _ member => absurd member List.not_mem_nil
  | item :: items, exact => List.forall_mem_cons.mpr
      ⟨dumps_printable item exact.1, dumpItems_printable items exact.2⟩

theorem dumpFields_printable : ∀ fields : List (Text × Value), ExactFields fields →
    ∀ part ∈ dumpFields ensureAscii fields, ∀ c ∈ part, Printable ensureAscii c
  | [], _ => fun part member => absurd member List.not_mem_nil
  | (key, value) :: fields, exact => List.forall_mem_cons.mpr
      ⟨fun c member => by
        rw [dumpField, List.mem_append, List.mem_append] at member
        rcases member with (member | member) | member
        · exact quoted_printable key c member
        · exact printable_lit (by decide) c member
        · exact dumps_printable value exact.1 c member,
      dumpFields_printable fields exact.2⟩

end

end Printable

end Json
