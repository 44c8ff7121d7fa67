import Mathlib.Algebra.Order.Field.Rat
import Mathlib.Algebra.Order.AbsoluteValue.Basic
import Mathlib.Data.List.Infix
import Mathlib.Tactic.Positivity
import CotCompression.Shared.Binary64
import CotCompression.Scoring.Reward

set_option autoImplicit false

namespace CotCompression

open Text (lit isSpace isDecimal natOf strip rstripDots)

-- <answer>(.*?)</answer>, any case, over lines
def tagPattern : Pattern :=
  .seq (.word (insensitive (lit "<answer>")))
    (.seq (.group (.lazy fun _ => true)) (.word (insensitive (lit "</answer>"))))

def onLine (c : Char) : Bool := c != '\n' && c != '<'

-- Answer:\s*([^\n<]+)
def linePattern : Pattern := markerPattern (sensitive answerMarker) (.plus onLine)

def extractAnswer (text : Text) : Text :=
  match tagPattern.search text with
  | some m => strip (group1 m)
  | none =>
    match linePattern.search text with
    | some m => rstripDots (strip (group1 m))
    | none => []

/-- The fields of a row that carry an answer; an absent field and null are both none. -/
structure Row where
  answer : Option Text
  solution : Option Text
  text : Option Text

def getGold (row : Row) : Except PyError Text := do
  let ans := strip (row.answer.getD [])
  if ans ≠ [] then return ans
  let sol := strip (row.solution.getD [])
  if answerMarker <:+: sol then
    let behind ← lastItem (Text.split answerMarker sol)
    let line ← item (Text.splitlines (strip behind)) 0
    return rstripDots line
  let text := strip (row.text.getD [])
  if text ≠ [] then return extractAnswer text
  return []

def isSign (c : Char) : Bool := c == '+' || c == '-'

def signedDigits : Pattern := .seq (.opt (.one isSign)) (.plus isDecimal)

-- ([+-]?\d+)\s*/\s*([+-]?\d+)
def fractionPattern : Pattern :=
  .seq (.group signedDigits) (.seq (.star isSpace) (.seq (.one (· == '/'))
    (.seq (.star isSpace) (.group signedDigits))))

-- [+-]?(?:\d+\.?\d*|\d*\.\d+)
def decimalPattern : Pattern :=
  .seq (.opt (.one isSign))
    (.alt (.seq (.plus isDecimal) (.seq (.opt (.one (· == '.'))) (.star isDecimal)))
      (.seq (.star isDecimal) (.seq (.one (· == '.')) (.plus isDecimal))))

def startsDecimal : Text → Bool
  | [] => false
  | c :: _ => isDecimal c

-- re.sub(r"(?<=\d),(?=\d)", "", t); `prev` tells whether a digit stands before.
def dropCommas : Bool → Text → Text
  | _, [] => []
  | prev, c :: rest =>
      if c = ',' ∧ prev = true ∧ startsDecimal rest = true then dropCommas false rest
      else c :: dropCommas (isDecimal c) rest

-- The number that a text of the decimal pattern writes.
def unsignedValue (t : Text) : ℚ :=
  let whole := t.takeWhile (· != '.')
  let fraction := (t.dropWhile (· != '.')).drop 1
  (natOf (whole ++ fraction) : ℚ) / 10 ^ fraction.length

def decimalValue : Text → ℚ
  | '-' :: t => -unsignedValue t
  | '+' :: t => unsignedValue t
  | t => unsignedValue t

-- What stands for a float is left open: `ratio` is float(Fraction), which may raise, and `float`
-- is float() of a text.
def parseWith {α : Type} (ratio : ℚ → Option α) (float : ℚ → α) (s : Text) : Option α :=
  let t := rstripDots (strip s)
  if t = [] then none
  else
    match fractionPattern.fullmatch t with
    | some m =>
      let denominator := Text.intOf (m.groups.getD 1 [])
      if denominator = 0 then none else ratio (Text.intOf (m.groups.getD 0 []) / denominator)
    | none =>
      (decimalPattern.fullmatch (dropCommas false t)).map fun m => float (decimalValue m.text)

def matchWith {α : Type} (parse : Text → Option α) (near : α → α → Bool) (pred gold : Text) : Int :=
  if gold = [] then 0
  else
    match parse pred, parse gold with
    | some a, some b => if near a b then 1 else 0
    | _, _ => if rstripDots pred = rstripDots gold then 1 else 0

-- abs(a - b) <= 1e-8 * max(1.0, abs(a), abs(b)), floats read as exact numbers
def Near (a b : ℚ) : Prop := |a - b| ≤ 1 / 10 ^ 8 * max (max 1 |a|) |b|

instance (a b : ℚ) : Decidable (Near a b) := inferInstanceAs (Decidable (_ ≤ _))

def parseNumeric : Text → Option ℚ := parseWith some id

def exactMatch : Text → Text → Int := matchWith parseNumeric fun a b => decide (Near a b)

-- The same on doubles. A fraction too large for a double raises; a text too large is infinite.
def ratio64 (q : ℚ) : Option Binary64 :=
  match Binary64.round q with
  | .finite a => some (.finite a)
  | _ => none

def parseNumeric64 : Text → Option Binary64 := parseWith ratio64 Binary64.round

def near64 (a b : Binary64) : Bool :=
  ((a.sub b).abs).le ((Binary64.round (1 / 10 ^ 8)).mul (((Binary64.round 1).max a.abs).max b.abs))

def exactMatch64 : Text → Text → Int := matchWith parseNumeric64 near64

theorem near_self (a : ℚ) : Near a a := by
  rw [Near, sub_self, abs_zero]
  positivity

theorem fractionPattern_needs : Pattern.Needs (· == '/') fractionPattern :=
  Pattern.needs_seq_right _ (Pattern.needs_seq_right _ (Pattern.needs_seq_left _ (Pattern.needs_one _)))

theorem dropCommas_clear {t : Text} (clear : ',' ∉ t) (prev : Bool) : dropCommas prev t = t := by
  induction t generalizing prev with
  | nil => rfl
  | cons c t ih =>
    simp only [List.mem_cons, not_or] at clear
    rw [dropCommas, if_neg (by simp [Ne.symm clear.1]), ih clear.2]

theorem parseWith_plain {α : Type} {ratio : ℚ → Option α} {float : ℚ → α} {t : Text} (filled : t ≠ [])
    (plain : ∀ c ∈ t, isSpace c = false ∧ c ≠ '.' ∧ c ≠ '/' ∧ c ≠ ',')
    {g : List Text} (fits : Pattern.Fits decimalPattern t g []) :
    parseWith ratio float t = some (float (decimalValue t)) := by
  have stripped : rstripDots (strip t) = t := by
    rw [Text.strip_solid fun c member => (plain c member).1,
      Text.rstripDots_of_not_mem fun member => (plain _ member).2.1 rfl]
  have noFraction : fractionPattern.fullmatch t = none :=
    Pattern.fullmatch_eq_none fractionPattern_needs fun c member => by
      simpa using (plain c member).2.2.1
  obtain ⟨m, found, same⟩ := Pattern.fullmatch_of_fits fits
  simp only [parseWith, stripped, if_neg filled, noFraction]
  rw [dropCommas_clear (fun member => (plain _ member).2.2.2 rfl), found, Option.map_some, same]

theorem fits_digits {digits : Text} (filled : digits ≠ []) (all : ∀ c ∈ digits, isDecimal c = true) :
    Pattern.Fits (.alt (.seq (.plus isDecimal) (.seq (.opt (.one (· == '.'))) (.star isDecimal)))
      (.seq (.star isDecimal) (.seq (.one (· == '.')) (.plus isDecimal)))) digits [] [] := by
  have dot : Pattern.Fits (.opt (.one (· == '.'))) [] [] ([] ++ []) := Pattern.fits_opt_none
  have rest : Pattern.Fits (.star isDecimal) [] [] [] := Pattern.fits_star (by simp)
  have tail := Pattern.fits_seq dot rest
  have head : Pattern.Fits (.plus isDecimal) digits [] ([] ++ [] ++ []) := Pattern.fits_plus filled all
  simpa using Pattern.fits_alt_left (Pattern.fits_seq head tail)

theorem unsignedValue_digits {digits : Text} (all : ∀ c ∈ digits, isDecimal c = true) :
    unsignedValue digits = natOf digits := by
  have solid : ∀ c ∈ digits, (c != '.') = true := by
    intro c member
    simp only [bne_iff_ne, ne_eq]
    rintro rfl
    exact absurd (all _ member) (by decide)
  have whole : digits.takeWhile (· != '.') = digits := List.takeWhile_eq_self_iff.mpr solid
  have none : digits.dropWhile (· != '.') = [] := List.dropWhile_eq_nil_iff.mpr solid
  simp [unsignedValue, whole, none]

-- A decimal integer as it may be written: a sign or none, digits, a full stop or none.
def IsLiteral (t : Text) (z : Int) : Prop :=
  ∃ sign digits stop, t = sign ++ digits ++ stop ∧ (sign = [] ∨ sign = ['+'] ∨ sign = ['-']) ∧ digits ≠ [] ∧
    (∀ c ∈ digits, isDecimal c = true) ∧ (stop = [] ∨ stop = ['.']) ∧ z = Text.intOf (sign ++ digits)

theorem parseWith_congr {α : Type} {ratio : ℚ → Option α} {float : ℚ → α} {s t : Text}
    (same : rstripDots (strip s) = rstripDots (strip t)) : parseWith ratio float s = parseWith ratio float t := by
  simp only [parseWith, same]

theorem decimalValue_digits {sign digits : Text} (signed : sign = [] ∨ sign = ['+'] ∨ sign = ['-'])
    (filled : digits ≠ []) (all : ∀ c ∈ digits, isDecimal c = true) :
    decimalValue (sign ++ digits) = Text.intOf (sign ++ digits) := by
  have value := unsignedValue_digits all
  rcases signed with rfl | rfl | rfl
  · obtain ⟨c, more, rfl⟩ := List.exists_cons_of_ne_nil filled
    have digit := all c (by simp)
    have plain : c ≠ '-' ∧ c ≠ '+' := by
      constructor <;> rintro rfl <;> exact absurd digit (by decide)
    rw [List.nil_append, decimalValue.eq_3 _ (by simpa using plain.1) (by simpa using plain.2),
      Text.intOf.eq_3 _ (by simpa using plain.1) (by simpa using plain.2), value]
    rfl
  · exact value
  · change -unsignedValue digits = ((-(natOf digits : Int) : Int) : ℚ)
    rw [value, Int.cast_neg, Int.cast_natCast]

theorem parseWith_literal {α : Type} {ratio : ℚ → Option α} {float : ℚ → α} {t : Text} {z : Int}
    (literal : IsLiteral t z) : parseWith ratio float t = some (float z) := by
  obtain ⟨sign, digits, stop, rfl, signed, filled, all, stops, rfl⟩ := literal
  have solid : ∀ c ∈ sign ++ digits, isSpace c = false ∧ c ≠ '.' ∧ c ≠ '/' ∧ c ≠ ',' := by
    refine List.forall_mem_append.mpr ⟨?_, fun c member => ?_⟩
    · rcases signed with rfl | rfl | rfl <;> decide
    · have digit := all c member
      refine ⟨?_, ?_, ?_, ?_⟩
      · by_contra space
        rw [Text.not_decimal_of_space (by simpa using space)] at digit
        cases digit
      all_goals
        rintro rfl
        exact absurd digit (by decide)
  have some : sign ++ digits ≠ [] := by simp [filled]
  have front : Pattern.Fits (.opt (.one isSign)) sign [] (digits ++ []) := by
    rcases signed with rfl | rfl | rfl
    · exact Pattern.fits_opt_none
    · exact Pattern.fits_alt_left (Pattern.fits_one (by decide))
    · exact Pattern.fits_alt_left (Pattern.fits_one (by decide))
  have fits := Pattern.fits_seq front (fits_digits filled all)
  -- the full stop is stripped before anything is read
  have stopped : rstripDots (strip (sign ++ digits ++ stop)) = rstripDots (strip (sign ++ digits)) := by
    have solidStop : ∀ c ∈ sign ++ digits ++ stop, isSpace c = false := by
      refine List.forall_mem_append.mpr ⟨fun c member => (solid c member).1, ?_⟩
      rcases stops with rfl | rfl <;> decide
    rw [Text.strip_solid solidStop, Text.strip_solid fun c member => (solid c member).1]
    rcases stops with rfl | rfl
    · rw [List.append_nil]
    · rw [Text.rstripDots_dot]
  rw [parseWith_congr stopped, parseWith_plain some solid fits, decimalValue_digits signed filled all]

theorem parseNumeric_literal {t : Text} {z : Int} (literal : IsLiteral t z) : parseNumeric t = some (z : ℚ) :=
  parseWith_literal literal

theorem isLiteral_decimal (z : Int) : IsLiteral (Text.decimal z) z := by
  have digits (n : Nat) : ∀ c ∈ Nat.toDigits 10 n, isDecimal c = true :=
    Text.forall_toDigits (by decide) n
  have whole := (Text.intOf_decimal z).symm
  cases z with
  | ofNat n =>
    exact ⟨[], _, [], (List.append_nil _).symm, .inl rfl, Nat.toDigits_ne_nil, digits n, .inl rfl, whole⟩
  | negSucc n =>
    exact ⟨['-'], _, [], (List.append_nil _).symm, .inr (.inr rfl), Nat.toDigits_ne_nil, digits (n + 1), .inl rfl,
      whole⟩

theorem parseNumeric_decimal (z : Int) : parseNumeric (Text.decimal z) = some (z : ℚ) :=
  parseNumeric_literal (isLiteral_decimal z)

end CotCompression
