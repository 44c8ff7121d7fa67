import Mathlib.Tactic.Linarith
import CotCompression.Scoring.Evaluate

set_option autoImplicit false

namespace CotCompression

open Text (isSpace isDecimal natOf strip rstripDots)

/-- Digits with single commas between them, and the digits alone. -/
inductive Grouped : Text → Text → Prop
  | last {c : Char} (digit : isDecimal c = true) : Grouped [c] [c]
  | next {c : Char} {t digits : Text} (digit : isDecimal c = true) (more : Grouped t digits) :
      Grouped (c :: t) (c :: digits)
  | comma {c : Char} {t digits : Text} (digit : isDecimal c = true) (more : Grouped t digits) :
      Grouped (c :: ',' :: t) (c :: digits)

def isDot (c : Char) : Bool := c == '.'

-- full stops, blanks, full stops and blanks
def closers : List (Char → Bool) := [isSpace, isDot, isSpace, isDot]

/-- How a line may write a number, with nothing behind it but full stops and blanks. -/
structure Numeral where
  sign : Text
  whole : Text
  tail : Text
  fraction : Text
  closing : Text
  signed : sign = [] ∨ sign = ['-']
  filled : whole ≠ []
  digits : ∀ c ∈ whole, isDecimal c = true
  grouped : (tail = [] ∧ fraction = []) ∨ ∃ t, tail = '.' :: t ∧ Grouped t fraction
  closed : Text.Runs closers closing

def Numeral.core (n : Numeral) : Text := n.sign ++ n.whole ++ n.tail

def Numeral.text (n : Numeral) : Text := n.core ++ n.closing

def Numeral.value (n : Numeral) : ℚ :=
  (if n.sign = [] then 1 else -1) * (natOf (n.whole ++ n.fraction) / 10 ^ n.fraction.length)

theorem Grouped.digits {t digits : Text} (grouped : Grouped t digits) : ∀ c ∈ digits, isDecimal c = true := by
  induction grouped with
  | last digit => simpa using digit
  | next digit _ ih => exact List.forall_mem_cons.mpr ⟨digit, ih⟩
  | comma digit _ ih => exact List.forall_mem_cons.mpr ⟨digit, ih⟩

theorem Grouped.chars {t digits : Text} (grouped : Grouped t digits) : ∀ c ∈ t, isDecimal c = true ∨ c = ',' := by
  induction grouped with
  | last digit => simpa using Or.inl digit
  | next digit _ ih => exact List.forall_mem_cons.mpr ⟨.inl digit, ih⟩
  | comma digit _ ih =>
    exact List.forall_mem_cons.mpr ⟨.inl digit, List.forall_mem_cons.mpr ⟨.inr rfl, ih⟩⟩

theorem Grouped.split {t digits : Text} (grouped : Grouped t digits) :
    ∃ front c, t = front ++ [c] ∧ isDecimal c = true := by
  induction grouped with
  | last digit => exact ⟨[], _, rfl, digit⟩
  | @next c t digits digit _ ih =>
    obtain ⟨front, d, rfl, last⟩ := ih
    exact ⟨c :: front, d, rfl, last⟩
  | @comma c t digits digit _ ih =>
    obtain ⟨front, d, rfl, last⟩ := ih
    exact ⟨c :: ',' :: front, d, rfl, last⟩

theorem not_comma {c : Char} (digit : isDecimal c = true) : c ≠ ',' := by
  rintro rfl
  exact absurd digit (by decide)

theorem dropCommas_behind {u : Text} {c : Char} (clear : ',' ∉ u) (other : c ≠ ',') (prev : Bool) (t : Text) :
    dropCommas prev (u ++ c :: t) = u ++ c :: dropCommas (isDecimal c) t := by
  induction u generalizing prev with
  | nil => rw [List.nil_append, dropCommas, if_neg fun dropped => other dropped.1, List.nil_append]
  | cons d u ih =>
    simp only [List.mem_cons, not_or] at clear
    rw [List.cons_append, dropCommas, if_neg fun dropped => clear.1 dropped.1.symm, ih clear.2, List.cons_append]

theorem dropCommas_digit {c : Char} (digit : isDecimal c = true) (prev : Bool) (t : Text) :
    dropCommas prev (c :: t) = c :: dropCommas true t := by
  rw [dropCommas, if_neg fun dropped => not_comma digit dropped.1, digit]

theorem dropCommas_grouped {t digits : Text} (grouped : Grouped t digits) (prev : Bool) :
    dropCommas prev t = digits ∧ startsDecimal t = true := by
  induction grouped generalizing prev with
  | last digit => exact ⟨dropCommas_digit digit prev [], digit⟩
  | next digit _ ih => exact ⟨by rw [dropCommas_digit digit, (ih true).1], digit⟩
  | @comma c t digits digit _ ih =>
    refine ⟨?_, digit⟩
    rw [dropCommas_digit digit, dropCommas, if_pos ⟨rfl, rfl, (ih false).2⟩, (ih false).1]

theorem grouped_cons {c : Char} {t digits : Text} (digit : isDecimal c = true)
    (more : t = [] ∧ digits = [] ∨ Grouped t digits ∨ ∃ u, t = ',' :: u ∧ Grouped u digits) :
    Grouped (c :: t) (c :: digits) := by
  rcases more with ⟨rfl, rfl⟩ | more | ⟨u, rfl, more⟩
  · exact .last digit
  · exact .next digit more
  · exact .comma digit more

theorem grouped_of_dropCommas {t : Text} {prev : Bool} (digits : ∀ c ∈ dropCommas prev t, isDecimal c = true) :
    t = [] ∧ dropCommas prev t = [] ∨ Grouped t (dropCommas prev t) ∨
      prev = true ∧ ∃ u, t = ',' :: u ∧ Grouped u (dropCommas prev t) := by
  induction t generalizing prev with
  | nil => exact .inl ⟨rfl, rfl⟩
  | cons c t ih =>
    rw [dropCommas] at digits ⊢
    split at digits
    · next dropped =>
      rw [if_pos dropped]
      obtain ⟨rfl, rfl, starts⟩ := dropped
      rcases ih digits with ⟨rfl, _⟩ | grouped | ⟨never, _⟩
      · cases starts
      · exact .inr (.inr ⟨rfl, t, rfl, grouped⟩)
      · cases never
    · next kept =>
      rw [if_neg kept]
      obtain ⟨digit, digits⟩ := List.forall_mem_cons.mp digits
      rw [digit] at digits ⊢
      exact .inr (.inl (grouped_cons digit ((ih digits).imp_right (Or.imp_right And.right))))

section Chars

variable {c : Char}

theorem digit_plain (digit : isDecimal c = true) :
    isSpace c = false ∧ isDot c = false ∧ c ≠ '.' ∧ c ≠ '/' ∧ c ≠ '-' ∧ c ≠ '+' := by
  refine ⟨?_, ?_, ?_, ?_, ?_, ?_⟩
  · by_contra space
    rw [Text.not_decimal_of_space (by simpa using space)] at digit
    cases digit
  · by_contra dot
    obtain rfl : c = '.' := by simpa [isDot] using dot
    exact absurd digit (by decide)
  all_goals
    rintro rfl
    exact absurd digit (by decide)

end Chars

theorem unsignedValue_parts {whole fraction : Text} (clear : '.' ∉ whole) :
    unsignedValue (whole ++ '.' :: fraction) = natOf (whole ++ fraction) / 10 ^ fraction.length := by
  have solid : ∀ c ∈ whole, (c != '.') = true := by
    intro c member
    simp only [bne_iff_ne, ne_eq]
    rintro rfl
    exact clear member
  have front : (whole ++ '.' :: fraction).takeWhile (· != '.') = whole := by
    rw [List.takeWhile_append_of_pos solid]
    simp
  have back : (whole ++ '.' :: fraction).dropWhile (· != '.') = '.' :: fraction := by
    rw [List.dropWhile_append_of_pos solid]
    simp
  rw [unsignedValue, front, back]
  rfl

theorem fits_point {whole fraction : Text} (filled : whole ≠ []) (digits : ∀ c ∈ whole, isDecimal c = true)
    (digits' : ∀ c ∈ fraction, isDecimal c = true) :
    Pattern.Fits (.alt (.seq (.plus isDecimal) (.seq (.opt (.one (· == '.'))) (.star isDecimal)))
      (.seq (.star isDecimal) (.seq (.one (· == '.')) (.plus isDecimal)))) (whole ++ '.' :: fraction) [] [] := by
  have dot : Pattern.Fits (.opt (.one (· == '.'))) ['.'] [] (fraction ++ []) :=
    Pattern.fits_alt_left (Pattern.fits_one (by decide))
  have rest : Pattern.Fits (.star isDecimal) fraction [] [] := Pattern.fits_star digits'
  have head : Pattern.Fits (.plus isDecimal) whole [] (['.'] ++ fraction ++ []) := Pattern.fits_plus filled digits
  simpa using Pattern.fits_alt_left (Pattern.fits_seq head (Pattern.fits_seq dot rest))

theorem decimalValue_signed {sign t : Text} {c : Char} (signed : sign = [] ∨ sign = ['-'])
    (digit : isDecimal c = true) :
    decimalValue (sign ++ c :: t) = (if sign = [] then 1 else -1) * unsignedValue (c :: t) := by
  obtain ⟨_, _, _, _, minus, plus⟩ := digit_plain digit
  rcases signed with rfl | rfl
  · rw [List.nil_append, decimalValue.eq_3 _ (by simpa using minus) (by simpa using plus), if_pos rfl, one_mul]
  · rw [if_neg (by simp), neg_one_mul]
    rfl

section Trim

-- What parse_numeric makes of a line that extract_answer has read.
def trim (line : Text) : Text := rstripDots (strip (strip (rstripDots (strip line))))

def Solid (t : Text) : Prop := ∀ c more, t = c :: more → isSpace c = false

theorem Solid.of_prefix {t u : Text} (solid : Solid t) (inside : u <+: t) : Solid u := by
  rintro c more rfl
  obtain ⟨rest, rfl⟩ := inside
  exact solid c _ rfl

theorem Solid.strip {t : Text} (solid : Solid t) : strip t = t.rdropWhile isSpace := by
  rw [Text.strip, Text.rstrip]
  cases t with
  | nil => rfl
  | cons c t => rw [Text.lstrip_of_head t (solid c t rfl)]

theorem Solid.trim {line : Text} (solid : Solid line) :
    trim line = Text.peel [isSpace, isDot, isSpace, isSpace, isDot] line := by
  have once := solid.of_prefix (List.rdropWhile_prefix isSpace line)
  have twice := once.of_prefix (List.rdropWhile_prefix isDot _)
  have thrice := twice.of_prefix (List.rdropWhile_prefix isSpace _)
  rw [CotCompression.trim, solid.strip]
  change rstripDots (Text.strip (Text.strip ((line.rdropWhile isSpace).rdropWhile isDot))) = _
  rw [twice.strip, thrice.strip]
  rfl

theorem closers_iff (t : Text) :
    Text.Runs [isSpace, isDot, isSpace, isSpace, isDot] t ↔ Text.Runs closers t :=
  Text.runs_congr (Text.runs_congr (Text.runs_twice _)) t

end Trim

theorem solid_digits {sign digits rest : Text} (signed : sign = [] ∨ sign = ['-']) (filled : digits ≠ [])
    (all : ∀ c ∈ digits, isDecimal c = true) : Solid (sign ++ digits ++ rest) := by
  obtain ⟨c, more, rfl⟩ := List.exists_cons_of_ne_nil filled
  have digit := all c (by simp)
  rintro d tail same
  rcases signed with rfl | rfl
  · obtain ⟨rfl, _⟩ := List.cons.inj same
    exact (digit_plain digit).1
  · obtain ⟨rfl, _⟩ := List.cons.inj same
    decide

theorem comma_digits {sign digits : Text} (signed : sign = [] ∨ sign = ['-'])
    (all : ∀ c ∈ digits, isDecimal c = true) : ',' ∉ sign ++ digits := by
  rw [List.mem_append, not_or]
  refine ⟨?_, fun member => not_comma (all _ member) rfl⟩
  rcases signed with rfl | rfl <;> simp

namespace Numeral

variable {α : Type} {ratio : ℚ → Option α} {float : ℚ → α}

theorem tail_chars (n : Numeral) : ∀ c ∈ n.tail, isDecimal c = true ∨ c = ',' ∨ c = '.' := by
  rcases n.grouped with ⟨none, _⟩ | ⟨t, split, grouped⟩
  · simp [none]
  · rw [split]
    refine List.forall_mem_cons.mpr ⟨.inr (.inr rfl), fun c member => ?_⟩
    rcases grouped.chars c member with digit | comma
    · exact .inl digit
    · exact .inr (.inl comma)

theorem core_split (n : Numeral) : ∃ front c, n.core = front ++ [c] ∧ isDecimal c = true := by
  rcases n.grouped with ⟨none, _⟩ | ⟨t, split, grouped⟩
  · refine ⟨n.sign ++ n.whole.dropLast, n.whole.getLast n.filled, ?_, n.digits _ (List.getLast_mem _)⟩
    rw [core, none, List.append_nil, List.append_assoc, List.dropLast_append_getLast]
  · obtain ⟨front, c, rfl, digit⟩ := grouped.split
    exact ⟨n.sign ++ n.whole ++ '.' :: front, c, by rw [core, split]; simp, digit⟩

theorem core_no_slash (n : Numeral) : ∀ c ∈ n.core, c ≠ '/' := by
  rw [core]
  refine List.forall_mem_append.mpr ⟨List.forall_mem_append.mpr ⟨?_, ?_⟩, ?_⟩
  · rcases n.signed with none | minus
    · simp [none]
    · simp [minus]
  · exact fun c member => (digit_plain (n.digits c member)).2.2.2.1
  · rintro c member rfl
    rcases n.tail_chars _ member with digit | comma | dot
    · exact (digit_plain digit).2.2.2.1 rfl
    · cases comma
    · cases dot

theorem solid (n : Numeral) : Solid n.text := by
  rw [text, core, List.append_assoc]
  exact solid_digits n.signed n.filled n.digits

theorem trim_text (n : Numeral) : trim n.text = n.core := by
  obtain ⟨front, c, split, digit⟩ := n.core_split
  obtain ⟨space, dot, _⟩ := digit_plain digit
  rw [n.solid.trim, text, split, List.append_assoc, List.singleton_append]
  exact Text.peel_behind (by simp [space, dot]) front ((closers_iff _).mpr n.closed)

theorem decimal_core (n : Numeral) : ∃ t, dropCommas false n.core = t ∧
    Pattern.Fits decimalPattern t [] [] ∧ decimalValue t = n.value := by
  have clear := comma_digits n.signed n.digits
  have front (rest : Text) : Pattern.Fits (.opt (.one isSign)) n.sign [] rest := by
    rcases n.signed with same | same
    · rw [same]
      exact Pattern.fits_opt_none
    · rw [same]
      exact Pattern.fits_alt_left (Pattern.fits_one (by decide))
  obtain ⟨c, more, split⟩ := List.exists_cons_of_ne_nil n.filled
  have digit := n.digits c (by rw [split]; simp)
  rcases n.grouped with ⟨none, empty⟩ | ⟨t, tail, grouped⟩
  · refine ⟨n.sign ++ n.whole, ?_, ?_, ?_⟩
    · rw [core, none, List.append_nil, dropCommas_clear clear]
    · exact Pattern.fits_seq (front _) (fits_digits n.filled n.digits)
    · rw [value, empty, List.append_nil, ← unsignedValue_digits n.digits, List.length_nil, pow_zero, div_one, split]
      exact decimalValue_signed n.signed digit
  · have dot : '.' ∉ n.whole := fun member => (digit_plain (n.digits _ member)).2.2.1 rfl
    refine ⟨n.sign ++ (n.whole ++ '.' :: n.fraction), ?_, ?_, ?_⟩
    · have after : isDecimal '.' = false := by decide
      rw [core, tail, dropCommas_behind clear (by decide), after, (dropCommas_grouped grouped false).1,
        List.append_assoc]
    · exact Pattern.fits_seq (front _) (fits_point n.filled n.digits grouped.digits)
    · rw [value, ← unsignedValue_parts dot, split]
      exact decimalValue_signed n.signed digit

theorem parse_text (n : Numeral) :
    parseWith ratio float (strip (rstripDots (strip n.text))) = some (float n.value) := by
  have filled : n.core ≠ [] := by
    obtain ⟨front, c, split, _⟩ := n.core_split
    simp [split]
  have noFraction : fractionPattern.fullmatch n.core = none :=
    Pattern.fullmatch_eq_none fractionPattern_needs fun c member => by
      simpa using n.core_no_slash c member
  obtain ⟨t, dropped, fits, value⟩ := n.decimal_core
  obtain ⟨m, found, same⟩ := Pattern.fullmatch_of_fits fits
  have trimmed : rstripDots (strip (strip (rstripDots (strip n.text)))) = n.core := n.trim_text
  simp only [parseWith, trimmed, if_neg filled, noFraction]
  rw [dropped, found, Option.map_some, same, value]

theorem value_lt (n : Numeral) : |n.value| < natOf n.whole + 1 := by
  have sign : |(if n.sign = [] then 1 else -1 : ℚ)| = 1 := by
    split
    · exact abs_one
    · rw [abs_neg, abs_one]
  have power : (0 : ℚ) < 10 ^ n.fraction.length := by positivity
  have part : (natOf n.fraction : ℚ) < 10 ^ n.fraction.length := by exact_mod_cast Text.natOf_lt n.fraction
  have nonneg : (0 : ℚ) ≤ natOf (n.whole ++ n.fraction) / 10 ^ n.fraction.length := by positivity
  rw [value, abs_mul, sign, one_mul, abs_of_nonneg nonneg, div_lt_iff₀ power, Text.natOf_append]
  push_cast
  linarith

end Numeral

theorem fraction_chars {t : Text} (takes : Pattern.Takes fractionPattern t) : '.' ∉ t := by
  have signed {t : Text} (takes : Pattern.Takes (.group signedDigits) t) : '.' ∉ t := by
    obtain ⟨sign, digits, rfl, front, back⟩ := Pattern.takes_seq (Pattern.takes_group takes)
    rw [List.mem_append, not_or]
    refine ⟨?_, fun member => absurd ((Pattern.takes_plus back).2 _ member) (by decide)⟩
    rcases Pattern.takes_opt front with one | rfl
    · obtain ⟨c, rfl, inside⟩ := Pattern.takes_one one
      rw [List.mem_singleton]
      rintro rfl
      exact absurd inside (by decide)
    · simp
  have blank {t : Text} (takes : Pattern.Takes (.star isSpace) t) : '.' ∉ t := fun member =>
    absurd (Pattern.takes_star takes _ member) (by decide)
  obtain ⟨left, _, rfl, takesLeft, takes⟩ := Pattern.takes_seq takes
  obtain ⟨blanks, _, rfl, takesBlanks, takes⟩ := Pattern.takes_seq takes
  obtain ⟨_, _, rfl, slash, takes⟩ := Pattern.takes_seq takes
  obtain ⟨blanks', right, rfl, takesBlanks', takesRight⟩ := Pattern.takes_seq takes
  obtain ⟨c, rfl, inside⟩ := Pattern.takes_one slash
  obtain rfl : c = '/' := by simpa using inside
  simp [signed takesLeft, blank takesBlanks, blank takesBlanks', signed takesRight]

theorem decimal_chars {run rest : Text} (takes : Pattern.Takes decimalPattern (run ++ '.' :: rest)) :
    ∀ c ∈ rest, isDecimal c = true := by
  obtain ⟨sign, body, split, front, back⟩ := Pattern.takes_seq takes
  have noDot : '.' ∉ sign := by
    rcases Pattern.takes_opt front with one | rfl
    · obtain ⟨c, rfl, inside⟩ := Pattern.takes_one one
      rw [List.mem_singleton]
      rintro rfl
      exact absurd inside (by decide)
    · simp
  have parts : ∃ digits dot digits', body = digits ++ (dot ++ digits') ∧ (dot = [] ∨ dot = ['.']) ∧
      (∀ c ∈ digits, isDecimal c = true) ∧ ∀ c ∈ digits', isDecimal c = true := by
    rcases Pattern.takes_alt back with takes | takes
    · obtain ⟨digits, _, rfl, whole, takes⟩ := Pattern.takes_seq takes
      obtain ⟨dot, digits', rfl, point, fraction⟩ := Pattern.takes_seq takes
      refine ⟨digits, dot, digits', rfl, ?_, (Pattern.takes_plus whole).2, Pattern.takes_star fraction⟩
      rcases Pattern.takes_opt point with one | none
      · obtain ⟨c, rfl, inside⟩ := Pattern.takes_one one
        exact .inr (by simpa using inside)
      · exact .inl none
    · obtain ⟨digits, _, rfl, whole, takes⟩ := Pattern.takes_seq takes
      obtain ⟨dot, digits', rfl, point, fraction⟩ := Pattern.takes_seq takes
      obtain ⟨c, rfl, inside⟩ := Pattern.takes_one point
      exact ⟨digits, [c], digits', rfl, .inr (by simpa using inside), Pattern.takes_star whole,
        (Pattern.takes_plus fraction).2⟩
  obtain ⟨digits, dot, digits', rfl, dots, all, all'⟩ := parts
  have noDigit {t : Text} (all : ∀ c ∈ t, isDecimal c = true) : '.' ∉ t := fun member =>
    absurd (all _ member) (by decide)
  rcases dots with rfl | rfl
  · -- without a full stop the text is none of the kind
    have inside : '.' ∈ sign ++ (digits ++ ([] ++ digits')) := by
      rw [← split]
      simp
    simp [noDot, noDigit all, noDigit all'] at inside
  · rw [← List.append_assoc, List.singleton_append] at split
    have front : '.' ∉ sign ++ digits := by simp [noDot, noDigit all]
    obtain ⟨_, _, rfl⟩ := (List.append_cons_inj_of_notMem front (noDigit all')).mp split.symm
    exact all'

section Inversion

variable {α : Type} {ratio : ℚ → Option α} {float : ℚ → α} {line run after : Text} {a : α}

theorem trim_cases (starts : line = run ++ '.' :: after) (solid : Solid line)
    (chars : ∀ c ∈ run, c = '-' ∨ isDecimal c = true) : ∃ closing, Text.Runs closers closing ∧
      line = trim line ++ closing ∧ (trim line = run ∨ ∃ w, w ≠ [] ∧ trim line = run ++ '.' :: w) := by
  obtain ⟨closing, split, runs⟩ := Text.peel_split [isSpace, isDot, isSpace, isSpace, isDot] line
  rw [← solid.trim] at split
  have runs := (closers_iff closing).mp runs
  refine ⟨closing, runs, split, ?_⟩
  rcases List.append_eq_append_iff.mp (starts.symm.trans split) with ⟨w, whole, rest⟩ | ⟨w, whole, rest⟩
  · rcases w with _ | ⟨c, w⟩
    · exact .inl (by simpa using whole)
    · obtain ⟨rfl, _⟩ := List.cons.inj rest
      refine .inr ⟨w, ?_, whole⟩
      rintro rfl
      -- no full stop is left at the end
      have last := List.rdropWhile_idempotent isDot (strip (strip (rstripDots (strip line))))
      change (trim line).rdropWhile isDot = trim line at last
      rw [whole, List.rdropWhile_concat_pos _ _ _ (by decide)] at last
      have shorter := (List.rdropWhile_prefix isDot run).length_le
      rw [last, List.length_append, List.length_singleton] at shorter
      omega
  · rcases w with _ | ⟨c, w⟩
    · exact .inl (by simpa using whole.symm)
    · have closes : c ∈ closing := by simp [rest]
      obtain ⟨p, known, holds⟩ := runs.mem c closes
      have plain : isSpace c = false ∧ isDot c = false := by
        rcases chars c (by simp [whole]) with rfl | digit
        · decide
        · exact ⟨(digit_plain digit).1, (digit_plain digit).2.1⟩
      simp only [closers, List.mem_cons, List.not_mem_nil, or_false] at known
      have never : p c = false := by
        rcases known with rfl | rfl | rfl | rfl
        · exact plain.1
        · exact plain.2
        · exact plain.1
        · exact plain.2
      rw [never] at holds
      cases holds

theorem decimal_of_parse {w : Text} (parsed : parseWith ratio float (strip (rstripDots (strip line))) = some a)
    (same : trim line = run ++ '.' :: w) : Pattern.Takes decimalPattern (dropCommas false (run ++ '.' :: w)) := by
  have trimmed : rstripDots (strip (strip (rstripDots (strip line)))) = run ++ '.' :: w := same
  have some : run ++ '.' :: w ≠ [] := by simp
  have noFraction : fractionPattern.fullmatch (run ++ '.' :: w) = none := by
    cases found : fractionPattern.fullmatch (run ++ '.' :: w) with
    | none => rfl
    | some m => exact absurd (by simp) (fraction_chars (Pattern.takes_of_fullmatch found).1)
  simp only [parseWith, trimmed, if_neg some, noFraction] at parsed
  obtain ⟨m, found, _⟩ := Option.map_eq_some_iff.mp parsed
  exact (Pattern.takes_of_fullmatch found).1

theorem numeral_of_parse {sign digits : Text} (starts : line = sign ++ digits ++ '.' :: after)
    (signed : sign = [] ∨ sign = ['-']) (filled : digits ≠ []) (all : ∀ c ∈ digits, isDecimal c = true)
    (parsed : parseWith ratio float (strip (rstripDots (strip line))) = some a) :
    ∃ n : Numeral, n.text = line ∧ n.whole = digits ∧ a = float n.value := by
  have chars : ∀ c ∈ sign ++ digits, c = '-' ∨ isDecimal c = true := by
    refine List.forall_mem_append.mpr ⟨fun c member => ?_, fun c member => .inr (all c member)⟩
    rcases signed with rfl | rfl
    · cases member
    · exact .inl (List.mem_singleton.mp member)
  have solid : Solid line := by
    rw [starts]
    exact solid_digits signed filled all
  have numeral : ∃ n : Numeral, n.text = line ∧ n.whole = digits := by
    obtain ⟨closing, closed, split, same | ⟨w, some, same⟩⟩ := trim_cases starts solid chars
    · refine ⟨⟨sign, digits, [], [], closing, signed, filled, all, .inl ⟨rfl, rfl⟩, closed⟩, ?_, rfl⟩
      rw [split, same, Numeral.text, Numeral.core, List.append_nil]
    · have grouped : Grouped w (dropCommas false w) := by
        have decimals := decimal_of_parse parsed same
        rw [dropCommas_behind (comma_digits signed all) (by decide)] at decimals
        rcases grouped_of_dropCommas (decimal_chars decimals) with ⟨none, _⟩ | grouped | ⟨never, _⟩
        · exact absurd none some
        · exact grouped
        · cases never
      refine ⟨⟨sign, digits, '.' :: w, _, closing, signed, filled, all, .inr ⟨w, rfl, grouped⟩, closed⟩, ?_, rfl⟩
      rw [split, same, Numeral.text, Numeral.core]
  obtain ⟨n, rfl, whole⟩ := numeral
  exact ⟨n, rfl, whole, (Option.some.inj (n.parse_text.symm.trans parsed)).symm⟩

end Inversion

end CotCompression
