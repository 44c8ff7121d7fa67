import Mathlib.Algebra.Group.Nat.Hom
import Mathlib.Data.List.DropRight
import Mathlib.Data.Nat.Notation
import Mathlib.Tactic.Common

set_option autoImplicit false

/-- A Python str, code point by code point. -/
abbrev Text := List Char

namespace Text

def lit (s : String) : Text := s.toList

-- Character by character along the text, not over all of Char.
instance (priority := 2000) decidableForall (t : Text) (p : Char → Prop) [DecidablePred p] :
    Decidable (∀ c ∈ t, p c) := List.decidableBAll p t

/-- Code points str.isspace accepts; the pattern class \s and strip use the same set. -/
def spaces : List Nat :=
  [0x09, 0x0A, 0x0B, 0x0C, 0x0D, 0x1C, 0x1D, 0x1E, 0x1F, 0x20, 0x85, 0xA0, 0x1680,
    0x2000, 0x2001, 0x2002, 0x2003, 0x2004, 0x2005, 0x2006, 0x2007, 0x2008, 0x2009, 0x200A,
    0x2028, 0x2029, 0x202F, 0x205F, 0x3000]

def isSpace (c : Char) : Bool := spaces.contains c.toNat

/-- The zero of each run of ten decimal digits (category Nd); \d and int() accept them all. -/
def decimalZeros : List Nat :=
  [0x30, 0x660, 0x6F0, 0x7C0, 0x966, 0x9E6, 0xA66, 0xAE6, 0xB66, 0xBE6, 0xC66, 0xCE6, 0xD66,
    0xDE6, 0xE50, 0xED0, 0xF20, 0x1040, 0x1090, 0x17E0, 0x1810, 0x1946, 0x19D0, 0x1A80, 0x1A90,
    0x1B50, 0x1BB0, 0x1C40, 0x1C50, 0xA620, 0xA8D0, 0xA900, 0xA9D0, 0xA9F0, 0xAA50, 0xABF0,
    0xFF10, 0x104A0, 0x10D30, 0x11066, 0x110F0, 0x11136, 0x111D0, 0x112F0, 0x11450, 0x114D0,
    0x11650, 0x116C0, 0x11730, 0x118E0, 0x11950, 0x11C50, 0x11D50, 0x11DA0, 0x16A60, 0x16AC0,
    0x16B50, 0x1D7CE, 0x1D7D8, 0x1D7E2, 0x1D7EC, 0x1D7F6, 0x1E140, 0x1E2F0, 0x1E950, 0x1FBF0]

def digitValue (c : Char) : Option Nat :=
  (decimalZeros.find? fun start => decide (start ≤ c.toNat ∧ c.toNat < start + 10)).map (c.toNat - ·)

def isDecimal (c : Char) : Bool := (digitValue c).isSome

def isLineBreak (c : Char) : Bool :=
  [0x0A, 0x0B, 0x0C, 0x0D, 0x1C, 0x1D, 0x1E, 0x85, 0x2028, 0x2029].contains c.toNat

theorem not_decimal_of_space {c : Char} (space : isSpace c = true) : isDecimal c = false := by
  have table : ∀ point ∈ spaces, (decimalZeros.find? fun start =>
      decide (start ≤ point ∧ point < start + 10)) = none := by decide
  have member : c.toNat ∈ spaces := by simpa [isSpace] using space
  rw [isDecimal, digitValue, table _ member]
  rfl

theorem alpha_of_upper {c : Char} (upper : c.isUpper = true) : c.isAlpha = true := by
  change (c.isUpper || c.isLower) = true
  rw [upper, Bool.true_or]

theorem alpha_of_lower {c : Char} (lower : c.isLower = true) : c.isAlpha = true := by
  change (c.isUpper || c.isLower) = true
  rw [lower, Bool.or_true]

theorem not_digit_of_alpha {c : Char} (alpha : c.isAlpha = true) : c.isDigit = false := by
  change (decide (65 ≤ c.val ∧ c.val ≤ 90) || (decide (97 ≤ c.val) && decide (c.val ≤ 122))) = true at alpha
  change (decide (48 ≤ c.val) && decide (c.val ≤ 57)) = false
  simp only [Bool.or_eq_true, Bool.and_eq_true, decide_eq_true_eq, Bool.and_eq_false_iff,
    decide_eq_false_iff_not] at *
  grind

-- str(n)
def decimal : Int → Text
  | .ofNat n => Nat.toDigits 10 n
  | .negSucc n => '-' :: Nat.toDigits 10 (n + 1)

def natOf (digits : Text) : Nat :=
  digits.foldl (fun value c => 10 * value + (digitValue c).getD 0) 0

def intOf : Text → Int
  | '-' :: digits => -(natOf digits : Int)
  | '+' :: digits => natOf digits
  | digits => natOf digits

theorem natOf_append_singleton (digits : Text) (c : Char) :
    natOf (digits ++ [c]) = 10 * natOf digits + (digitValue c).getD 0 := by
  simp [natOf, List.foldl_append]

theorem natOf_append (front back : Text) : natOf (front ++ back) = natOf front * 10 ^ back.length + natOf back := by
  induction back using List.reverseRecOn with
  | nil => simp [natOf]
  | append_singleton back c ih =>
    rw [← List.append_assoc, natOf_append_singleton, ih, natOf_append_singleton, List.length_append,
      List.length_singleton, Nat.pow_succ, Nat.mul_add, ← Nat.mul_assoc, ← Nat.mul_assoc,
      Nat.mul_comm (natOf front * 10 ^ back.length), Nat.mul_assoc, Nat.add_assoc]

theorem digitValue_lt (c : Char) : (digitValue c).getD 0 < 10 := by
  rw [digitValue]
  cases found : decimalZeros.find? fun start => decide (start ≤ c.toNat ∧ c.toNat < start + 10) with
  | none => simp
  | some start =>
    have inside := List.find?_some found
    simp only [decide_eq_true_eq] at inside
    rw [Option.map_some, Option.getD_some]
    omega

theorem natOf_lt (digits : Text) : natOf digits < 10 ^ digits.length := by
  induction digits using List.reverseRecOn with
  | nil => simp [natOf]
  | append_singleton digits c ih =>
    have digit := digitValue_lt c
    rw [natOf_append_singleton, List.length_append, List.length_singleton, Nat.pow_succ]
    omega

theorem digitValue_digitChar (n : Nat) (small : n < 10) : digitValue n.digitChar = some n := by
  have table : ∀ n < 10, digitValue (Nat.digitChar n) = some n := by decide
  exact table n small

theorem natOf_toDigits (n : Nat) : natOf (Nat.toDigits 10 n) = n := by
  induction n using Nat.strongRecOn with
  | ind n ih =>
    rw [Nat.toDigits_eq_if (by omega)]
    split
    · next small => simp [natOf, digitValue_digitChar n small]
    · next large =>
      rw [natOf_append_singleton, ih (n / 10) (by omega),
        digitValue_digitChar _ (Nat.mod_lt _ (by omega))]
      simp only [Option.getD_some]
      omega

@[simp] theorem natOf_decimal (n : Nat) : natOf (decimal n) = n := natOf_toDigits n

theorem mem_toDigits {c : Char} {n : Nat} (member : c ∈ Nat.toDigits 10 n) :
    ∃ digit < 10, c = Nat.digitChar digit := by
  induction n using Nat.strongRecOn with
  | ind n ih =>
    rw [Nat.toDigits_eq_if (by omega)] at member
    split at member
    · next small => exact ⟨n, small, List.mem_singleton.mp member⟩
    · next large =>
      rcases List.mem_append.mp member with member | member
      · exact ih (n / 10) (by omega) member
      · exact ⟨n % 10, Nat.mod_lt _ (by omega), List.mem_singleton.mp member⟩

theorem forall_toDigits {p : Char → Prop} (digits : ∀ digit < 10, p (Nat.digitChar digit)) (n : Nat) :
    ∀ c ∈ Nat.toDigits 10 n, p c := by
  intro c member
  obtain ⟨digit, small, rfl⟩ := mem_toDigits member
  exact digits digit small

theorem decimal_nonneg {z : Int} (nonneg : 0 ≤ z) : decimal z = Nat.toDigits 10 z.toNat := by
  obtain ⟨n, rfl⟩ := Int.eq_ofNat_of_zero_le nonneg
  rfl

theorem forall_decimal {p : Char → Prop} (digits : ∀ digit < 10, p (Nat.digitChar digit))
    (minus : p '-') (z : Int) : ∀ c ∈ decimal z, p c := by
  cases z with
  | ofNat n => exact forall_toDigits digits n
  | negSucc n =>
    intro c member
    rcases List.mem_cons.mp member with rfl | member
    · exact minus
    · exact forall_toDigits digits _ c member

theorem decimal_ne_nil (z : Int) : decimal z ≠ [] := by
  cases z with
  | ofNat n => exact Nat.toDigits_ne_nil
  | negSucc n => simp [decimal]

-- A number's text never starts with a digit and a sign at once: int() gives the number back.
theorem intOf_decimal (z : Int) : intOf (decimal z) = z := by
  cases z with
  | negSucc n => simp only [decimal, intOf, natOf_toDigits]; omega
  | ofNat n =>
    have plain : intOf (Nat.toDigits 10 n) = natOf (Nat.toDigits 10 n) := by
      rcases shape : Nat.toDigits 10 n with _ | ⟨c, rest⟩
      · rfl
      · obtain ⟨digit, small, rfl⟩ := mem_toDigits (shape ▸ List.mem_cons_self : c ∈ Nat.toDigits 10 n)
        have sign : Nat.digitChar digit ≠ '-' ∧ Nat.digitChar digit ≠ '+' := by
          have table : ∀ digit < 10, Nat.digitChar digit ≠ '-' ∧ Nat.digitChar digit ≠ '+' := by decide
          exact table digit small
        unfold intOf
        split <;> simp_all
    rw [decimal, plain, natOf_toDigits]
    rfl

def join (sep : Text) (parts : List Text) : Text := sep.intercalate parts

@[simp] theorem join_nil (sep : Text) : join sep [] = [] := List.intercalate_nil

@[simp] theorem join_singleton (sep part : Text) : join sep [part] = part :=
  List.intercalate_singleton

@[simp] theorem join_cons_cons (sep part next : Text) (rest : List Text) :
    join sep (part :: next :: rest) = part ++ sep ++ join sep (next :: rest) :=
  List.intercalate_cons_cons

theorem forall_join {p : Char → Prop} {sep : Text} {parts : List Text} (sepOk : ∀ c ∈ sep, p c)
    (partsOk : ∀ part ∈ parts, ∀ c ∈ part, p c) : ∀ c ∈ join sep parts, p c := by
  induction parts with
  | nil => simp
  | cons part rest ih =>
    cases rest with
    | nil => simpa using partsOk
    | cons next rest =>
      simp only [join_cons_cons, List.mem_append]
      rintro c ((member | member) | member)
      · exact partsOk part (by simp) c member
      · exact sepOk c member
      · exact ih (fun part inside => partsOk part (List.mem_cons_of_mem _ inside)) c member

def lstrip (t : Text) : Text := t.dropWhile isSpace

def rstrip (t : Text) : Text := t.rdropWhile isSpace

def strip (t : Text) : Text := rstrip (lstrip t)

-- s.rstrip(".")
def rstripDots (t : Text) : Text := t.rdropWhile (· == '.')

theorem lstrip_of_head {c : Char} (t : Text) (solid : isSpace c = false) : lstrip (c :: t) = c :: t := by
  simp [lstrip, solid]

theorem rstrip_of_last {c : Char} (t : Text) (solid : isSpace c = false) :
    rstrip (t ++ [c]) = t ++ [c] :=
  List.rdropWhile_concat_neg _ _ _ (by simp [solid])

theorem strip_solid {t : Text} (solid : ∀ c ∈ t, isSpace c = false) : strip t = t := by
  have left : lstrip t = t := by
    cases t with
    | nil => rfl
    | cons c rest => exact lstrip_of_head rest (solid c (by simp))
  rw [strip, left]
  induction t using List.reverseRecOn with
  | nil => rfl
  | append_singleton t c _ => exact rstrip_of_last t (solid c (by simp))

theorem rstripDots_dot (t : Text) : rstripDots (t ++ ['.']) = rstripDots t :=
  List.rdropWhile_concat_pos _ _ _ (by simp)

theorem rstripDots_of_not_mem {t : Text} (clear : '.' ∉ t) : rstripDots t = t := by
  induction t using List.reverseRecOn with
  | nil => rfl
  | append_singleton t c _ =>
    refine List.rdropWhile_concat_neg _ _ _ ?_
    intro dot
    simp_all

-- s.splitlines()
def splitlinesFrom (line : Text) : Text → List Text
  | [] => if line = [] then [] else [line.reverse]
  | '\r' :: '\n' :: rest => line.reverse :: splitlinesFrom [] rest
  | c :: rest =>
      if isLineBreak c then line.reverse :: splitlinesFrom [] rest
      else splitlinesFrom (c :: line) rest

def splitlines (t : Text) : List Text := splitlinesFrom [] t

theorem splitlinesFrom_plain (line t : Text) (plain : ∀ c ∈ t, isLineBreak c = false) :
    splitlinesFrom line t = if line.reverse ++ t = [] then [] else [line.reverse ++ t] := by
  induction t generalizing line with
  | nil => simp [splitlinesFrom]
  | cons c rest ih =>
    have solid := plain c (by simp)
    have notReturn : c ≠ '\r' := by
      rintro rfl
      exact absurd solid (by decide)
    rw [splitlinesFrom.eq_3 _ _ _ (by intro _ same; exact absurd same notReturn), solid]
    simp only [Bool.false_eq_true, if_false]
    rw [ih _ fun c member => plain c (List.mem_cons_of_mem _ member)]
    simp

theorem splitlines_plain {t : Text} (plain : ∀ c ∈ t, isLineBreak c = false) (nonempty : t ≠ []) :
    splitlines t = [t] := by
  simp [splitlines, splitlinesFrom_plain [] t plain, nonempty]

def consFirst (c : Char) : List Text → List Text
  | [] => [[c]]
  | part :: parts => (c :: part) :: parts

-- s.split(sep), sep nonempty: `skip` characters of the last separator are still to be passed.
def splitFrom (sep : Text) : Nat → Text → List Text
  | _, [] => [[]]
  | skip + 1, _ :: rest => splitFrom sep skip rest
  | 0, c :: rest =>
      if sep.isPrefixOf (c :: rest) then [] :: splitFrom sep (sep.length - 1) rest
      else consFirst c (splitFrom sep 0 rest)

def split (sep t : Text) : List Text := splitFrom sep 0 t

theorem split_head {sep t part : Text} {parts : List Text} (found : split sep t = part :: parts) :
    part <+: t := by
  induction t generalizing part parts with
  | nil =>
    obtain ⟨rfl, _⟩ := List.cons.inj found
    exact List.nil_prefix
  | cons c rest ih =>
    rw [split, splitFrom] at found
    split at found
    · obtain ⟨rfl, _⟩ := List.cons.inj found
      exact List.nil_prefix
    · cases later : splitFrom sep 0 rest with
      | nil =>
        rw [later] at found
        obtain ⟨rfl, _⟩ := List.cons.inj found
        exact List.cons_prefix_cons.mpr ⟨rfl, List.nil_prefix⟩
      | cons next more =>
        rw [later] at found
        obtain ⟨rfl, _⟩ := List.cons.inj found
        exact List.cons_prefix_cons.mpr ⟨rfl, ih later⟩

theorem splitFrom_skip (sep skipped t : Text) :
    splitFrom sep skipped.length (skipped ++ t) = split sep t := by
  induction skipped with
  | nil => rfl
  | cons c rest ih => exact ih

theorem split_at {sep : Text} (t : Text) (nonempty : sep ≠ []) :
    split sep (sep ++ t) = [] :: split sep t := by
  obtain ⟨c, rest, rfl⟩ := List.exists_cons_of_ne_nil nonempty
  have found : (c :: rest).isPrefixOf (c :: (rest ++ t)) = true := by simp
  change splitFrom (c :: rest) 0 (c :: (rest ++ t)) = _
  rw [splitFrom, if_pos found]
  exact congrArg _ (splitFrom_skip (c :: rest) rest t)

-- `u` holds no start of `sep`, also none that would end behind `u`.
theorem split_append {sep u t : Text} (nonempty : sep ≠ [])
    (clear : ∀ v, v ≠ [] → v <:+ u → ¬ sep <+: v ++ (sep ++ t)) :
    split sep (u ++ (sep ++ t)) = u :: split sep t := by
  induction u with
  | nil => exact split_at t nonempty
  | cons c u ih =>
    have here := clear (c :: u) (by simp) (List.suffix_refl _)
    have later := ih fun v filled inside => clear v filled (inside.trans (List.suffix_cons c u))
    rw [split] at later ⊢
    change splitFrom sep 0 (c :: (u ++ (sep ++ t))) = _
    rw [splitFrom, if_neg (by simpa [List.isPrefixOf_iff_prefix] using here), later]
    rfl

theorem split_clear {sep u : Text} (clear : ∀ v, v ≠ [] → v <:+ u → ¬ sep <+: v) :
    split sep u = [u] := by
  induction u with
  | nil => rfl
  | cons c u ih =>
    have here := clear (c :: u) (by simp) (List.suffix_refl _)
    have later := ih fun v filled inside => clear v filled (inside.trans (List.suffix_cons c u))
    rw [split] at later ⊢
    rw [splitFrom, if_neg (by simpa [List.isPrefixOf_iff_prefix] using here), later]
    rfl

theorem not_prefix_of_head {c : Char} {sep u v t : Text} (clear : c ∉ u) (filled : v ≠ [])
    (inside : v <:+ u) : ¬ c :: sep <+: v ++ t := by
  obtain ⟨d, rest, rfl⟩ := List.exists_cons_of_ne_nil filled
  rw [List.cons_append, List.cons_prefix_cons]
  rintro ⟨rfl, _⟩
  exact clear (inside.subset (by simp))

theorem split_append_of_head {c : Char} {sep u : Text} (t : Text) (clear : c ∉ u) :
    split (c :: sep) (u ++ (c :: sep ++ t)) = u :: split (c :: sep) t :=
  split_append (by simp) fun _ filled inside => not_prefix_of_head clear filled inside

theorem split_of_not_mem {c : Char} {sep u : Text} (clear : c ∉ u) : split (c :: sep) u = [u] :=
  split_clear fun v filled inside => by
    have apart : ¬ c :: sep <+: v ++ [] := not_prefix_of_head clear filled inside
    rwa [List.append_nil] at apart

theorem split_join {c : Char} {sep : Text} {parts : List Text} (nonempty : parts ≠ [])
    (clear : ∀ part ∈ parts, c ∉ part) : split (c :: sep) (join (c :: sep) parts) = parts := by
  induction parts with
  | nil => exact absurd rfl nonempty
  | cons part rest ih =>
    cases rest with
    | nil => simpa using split_of_not_mem (clear part (by simp))
    | cons next rest =>
      rw [join_cons_cons, List.append_assoc, split_append_of_head _ (clear part (by simp)),
        ih (by simp) fun part member => clear part (List.mem_cons_of_mem _ member)]

-- Both sides carry `c` first at the place shown, so a nonempty `v` puts them out of step.
theorem not_prefix_of_last {c : Char} {sep v t : Text} (sepClear : c ∉ sep) (clear : c ∉ v)
    (filled : v ≠ []) : ¬ sep ++ [c] <+: v ++ (sep ++ c :: t) := by
  rintro ⟨rest, same⟩
  have left : (sep ++ [c] ++ rest).idxOf c = sep.length := by
    rw [List.append_assoc, List.idxOf_append_of_notMem sepClear]
    simp
  have right : (v ++ (sep ++ c :: t)).idxOf c = v.length + sep.length := by
    rw [List.idxOf_append_of_notMem clear, List.idxOf_append_of_notMem sepClear]
    simp
  have length : 0 < v.length := List.length_pos_iff.mpr filled
  rw [same, right] at left
  omega

theorem split_append_of_last {c : Char} {sep u : Text} (t : Text) (sepClear : c ∉ sep)
    (clear : c ∉ u) : split (sep ++ [c]) (u ++ (sep ++ [c] ++ t)) = u :: split (sep ++ [c]) t := by
  refine split_append (by simp) ?_
  intro v filled inside
  have outside : c ∉ v := fun member => clear (inside.subset member)
  simpa using not_prefix_of_last sepClear outside filled

theorem split_of_last_not_mem {c : Char} {sep u : Text} (clear : c ∉ u) :
    split (sep ++ [c]) u = [u] := by
  refine split_clear ?_
  rintro v _ inside ⟨rest, rfl⟩
  exact clear (inside.subset (by simp))

theorem splitFrom_ne_nil (sep : Text) (skip : Nat) (t : Text) : splitFrom sep skip t ≠ [] := by
  induction t generalizing skip with
  | nil => cases skip <;> simp [splitFrom]
  | cons c rest ih =>
    cases skip with
    | succ skip => exact ih skip
    | zero =>
      rw [splitFrom]
      split
      · simp
      · cases splitFrom sep 0 rest <;> simp [consFirst]

theorem consFirst_append {c : Char} {parts : List Text} (filled : parts ≠ []) (more : List Text) :
    consFirst c (parts ++ more) = consFirst c parts ++ more := by
  cases parts with
  | nil => exact absurd rfl filled
  | cons part parts => rfl

theorem split_char (c : Char) (u t : Text) : split [c] (u ++ c :: t) = split [c] u ++ split [c] t := by
  induction u with
  | nil => exact split_at t (List.cons_ne_nil c [])
  | cons d u ih =>
    rw [split] at ih
    rw [split, split, List.cons_append, splitFrom, splitFrom]
    have head (more : Text) : [c].isPrefixOf (d :: more) = (c == d) := by
      rw [List.isPrefixOf, List.isPrefixOf, Bool.and_true]
    rw [head, head]
    split
    · exact congrArg _ ih
    · rw [ih]
      exact consFirst_append (splitFrom_ne_nil _ _ _) _

theorem suffix_append_cases {v a b : Text} (inside : v <:+ a ++ b) :
    v <:+ b ∨ ∃ w, v = w ++ b ∧ w <:+ a := by
  rcases List.suffix_or_suffix_of_suffix inside (List.suffix_append a b) with within | ⟨w, rfl⟩
  · exact .inl within
  · exact .inr ⟨w, rfl, List.suffix_append_self_iff.mp inside⟩

section Last

variable {c : Char} {sep t : Text}

theorem prefix_of_alone (alone : c ∉ sep) {u : Text} (filled : u ≠ []) (found : c :: sep <+: u ++ c :: t) :
    c :: sep <+: u := by
  refine List.prefix_of_prefix_length_le found (List.prefix_append u _) ?_
  by_contra short
  simp only [List.length_cons] at short
  have first := List.length_pos_iff.mpr filled
  obtain ⟨more, same⟩ := found
  have here : (u ++ c :: t)[u.length]? = some c := by simp
  rw [← same, List.getElem?_append_left (by simp only [List.length_cons]; omega)] at here
  obtain ⟨before, length⟩ := Nat.exists_eq_add_of_le' first
  rw [length, List.getElem?_cons_succ] at here
  exact alone (List.mem_of_getElem? here)

theorem split_last (alone : c ∉ sep) (clear : ¬ c :: sep <:+: t) (u : Text) :
    ∃ before, before ≠ [] ∧ split (c :: sep) (u ++ (c :: sep ++ t)) = before ++ [t] := by
  induction length : u.length using Nat.strong_induction_on generalizing u with
  | _ length ih =>
  subst length
  rcases u with _ | ⟨d, u⟩
  · refine ⟨[[]], by simp, ?_⟩
    rw [List.nil_append, split_at t (by simp), split_clear fun v _ inside starts =>
      clear (starts.isInfix.trans inside.isInfix)]
    rfl
  · by_cases found : c :: sep <+: d :: u ++ (c :: sep ++ t)
    · obtain ⟨rest, same⟩ := prefix_of_alone alone (by simp) found
      have shorter : rest.length < (d :: u).length := by
        rw [← same, List.length_append, List.length_cons]
        omega
      obtain ⟨before, _, whole⟩ := ih rest.length shorter rest rfl
      refine ⟨[] :: before, by simp, ?_⟩
      rw [← same, List.append_assoc, split_at _ (by simp), whole]
      rfl
    · obtain ⟨before, filled, whole⟩ := ih u.length (by simp) u rfl
      refine ⟨consFirst d before, by cases before <;> simp [consFirst], ?_⟩
      rw [split] at whole ⊢
      rw [List.cons_append, splitFrom, if_neg (by simpa [List.isPrefixOf_iff_prefix] using found), whole,
        consFirst_append filled]

theorem exists_last_infix (filled : sep ≠ []) (found : sep <:+: t) :
    ∃ u v, t = u ++ (sep ++ v) ∧ ¬ sep <:+: v := by
  induction t with
  | nil => exact absurd (List.infix_nil.mp found) filled
  | cons d t ih =>
    by_cases later : sep <:+: t
    · obtain ⟨u, v, rfl, clear⟩ := ih later
      exact ⟨d :: u, v, rfl, clear⟩
    · obtain ⟨v, same⟩ := (List.infix_cons_iff.mp found).resolve_right later
      refine ⟨[], v, same.symm, fun inside => later (inside.trans ?_)⟩
      obtain ⟨e, sep, rfl⟩ := List.exists_cons_of_ne_nil filled
      obtain ⟨-, rfl⟩ := List.cons.inj same
      exact (List.suffix_append sep v).isInfix

theorem split_last_nil (alone : c ∉ sep) (found : c :: sep <:+: t) :
    ∃ behind, (split (c :: sep) t).getLast? = some behind ∧ behind <:+ t ∧ (behind = [] ↔ c :: sep <:+ t) := by
  obtain ⟨u, v, rfl, clear⟩ := exists_last_infix (by simp) found
  obtain ⟨before, _, whole⟩ := split_last alone clear u
  refine ⟨v, by rw [whole, List.getLast?_concat], ⟨u ++ c :: sep, by simp⟩, ?_, fun ends => ?_⟩
  · rintro rfl
    exact ⟨u, by simp⟩
  · by_contra filled
    have inside : c :: sep <:+ c :: sep ++ v :=
      List.suffix_of_suffix_length_le ends (List.suffix_append u _) (by simp)
    rcases suffix_append_cases inside with within | ⟨w, same, front⟩
    · exact clear within.isInfix
    · rcases w with _ | ⟨d, w⟩
      · exact clear (same ▸ List.infix_rfl)
      · obtain ⟨rfl, rest⟩ := List.cons.inj same
        rcases List.suffix_cons_iff.mp front with whole | within
        · obtain ⟨-, rfl⟩ := List.cons.inj whole
          exact filled (List.append_right_eq_self.mp rest.symm)
        · exact alone (within.subset (by simp))

end Last

theorem splitlinesFrom_ne_nil {line t : Text} (filled : line ≠ [] ∨ t ≠ []) : splitlinesFrom line t ≠ [] := by
  induction line, t using splitlinesFrom.induct with
  | case1 => simp at filled
  | case2 line some => simp [splitlinesFrom, some]
  | case3 => simp [splitlinesFrom]
  | case4 line c rest notReturn breaks =>
    rw [splitlinesFrom.eq_3 _ _ _ notReturn, if_pos breaks]
    simp
  | case5 line c rest notReturn breaks ih =>
    rw [splitlinesFrom.eq_3 _ _ _ notReturn, if_neg breaks]
    exact ih (.inl (by simp))

theorem strip_ne_nil {t : Text} {c : Char} (member : c ∈ t) (solid : isSpace c = false) : strip t ≠ [] := by
  intro none
  have all := List.rdropWhile_eq_nil_iff.mp none
  cases front : lstrip t with
  | nil =>
    have blank := List.dropWhile_eq_nil_iff.mp front c member
    rw [blank] at solid
    cases solid
  | cons d rest =>
    have head := List.head?_dropWhile_not isSpace t
    rw [← lstrip, front] at head
    have head : isSpace d = false := head
    rw [all d (by rw [front]; simp)] at head
    cases head

theorem strip_last {t : Text} (filled : strip t ≠ []) : isSpace ((strip t).getLast filled) = false := by
  have last : ¬ isSpace ((strip t).getLast filled) = true := List.rdropWhile_last_not isSpace (lstrip t) filled
  simpa using last

section Peel

variable {p : Char → Bool} {ps : List (Char → Bool)} {t u : Text}

def peel : List (Char → Bool) → Text → Text
  | [], t => t
  | p :: ps, t => peel ps (t.rdropWhile p)

def Runs : List (Char → Bool) → Text → Prop
  | [], t => t = []
  | p :: ps, t => ∃ front run, t = front ++ run ∧ (∀ c ∈ run, p c = true) ∧ Runs ps front

theorem runs_nil (ps : List (Char → Bool)) : Runs ps [] := by
  induction ps with
  | nil => rfl
  | cons p ps ih => exact ⟨[], [], rfl, by simp, ih⟩

theorem Runs.of_prefix (runs : Runs ps t) (inside : u <+: t) : Runs ps u := by
  induction ps generalizing t u with
  | nil => exact List.prefix_nil.mp (runs ▸ inside)
  | cons p ps ih =>
    obtain ⟨front, run, rfl, all, runs⟩ := runs
    rcases List.prefix_or_prefix_of_prefix inside (List.prefix_append front run) with within | ⟨part, rfl⟩
    · exact ⟨u, [], (List.append_nil u).symm, by simp, ih runs within⟩
    · have within := (List.prefix_append_right_inj front).mp inside
      exact ⟨front, part, rfl, fun c member => all c (within.subset member), runs⟩

theorem Runs.mem (runs : Runs ps t) : ∀ c ∈ t, ∃ p ∈ ps, p c = true := by
  induction ps generalizing t with
  | nil => simp [show t = [] from runs]
  | cons p ps ih =>
    obtain ⟨front, run, rfl, all, runs⟩ := runs
    refine List.forall_mem_append.mpr ⟨fun c member => ?_, fun c member => ⟨p, by simp, all c member⟩⟩
    obtain ⟨q, known, holds⟩ := ih runs c member
    exact ⟨q, List.mem_cons_of_mem _ known, holds⟩

theorem runs_congr {qs : List (Char → Bool)} (same : ∀ t, Runs ps t ↔ Runs qs t) (t : Text) :
    Runs (p :: ps) t ↔ Runs (p :: qs) t := by
  simp only [Runs, same]

theorem runs_twice (ps : List (Char → Bool)) (t : Text) : Runs (p :: p :: ps) t ↔ Runs (p :: ps) t := by
  constructor
  · rintro ⟨_, run, rfl, all, front, run', rfl, all', runs⟩
    exact ⟨front, run' ++ run, by rw [List.append_assoc], List.forall_mem_append.mpr ⟨all', all⟩, runs⟩
  · intro runs
    exact ⟨t, [], (List.append_nil t).symm, by simp, runs⟩

theorem peel_split (ps : List (Char → Bool)) (t : Text) : ∃ behind, t = peel ps t ++ behind ∧ Runs ps behind := by
  induction ps generalizing t with
  | nil => exact ⟨[], (List.append_nil t).symm, rfl⟩
  | cons p ps ih =>
    obtain ⟨behind, split, runs⟩ := ih (t.rdropWhile p)
    refine ⟨behind ++ t.rtakeWhile p, ?_, behind, _, rfl, fun c => List.mem_rtakeWhile_imp, runs⟩
    rw [peel, ← List.append_assoc, ← split, List.rdropWhile_append_rtakeWhile]

theorem rdropWhile_append_run {run : Text} (all : ∀ c ∈ run, p c = true) (t : Text) :
    (t ++ run).rdropWhile p = t.rdropWhile p := by
  rw [List.rdropWhile, List.reverse_append, List.dropWhile_append_of_pos fun c member => all c (by simpa using member),
    List.rdropWhile]

theorem rdropWhile_behind {c : Char} (other : p c = false) (front t : Text) :
    (front ++ c :: t).rdropWhile p = front ++ c :: t.rdropWhile p := by
  induction t using List.reverseRecOn with
  | nil => rw [List.rdropWhile_concat_neg _ _ _ (by simp [other]), List.rdropWhile_nil]
  | append_singleton t d ih =>
    by_cases inside : p d = true
    · rw [List.rdropWhile_concat_pos _ _ _ inside, ← ih, ← List.cons_append, ← List.append_assoc,
        List.rdropWhile_concat_pos _ _ _ inside]
    · rw [List.rdropWhile_concat_neg _ _ _ inside, ← List.cons_append, ← List.append_assoc,
        List.rdropWhile_concat_neg _ _ _ inside]

theorem peel_behind {c : Char} (other : ∀ p ∈ ps, p c = false) (front : Text) (runs : Runs ps t) :
    peel ps (front ++ c :: t) = front ++ [c] := by
  induction ps generalizing t with
  | nil => rw [show t = [] from runs, peel]
  | cons p ps ih =>
    obtain ⟨head, run, rfl, all, runs⟩ := runs
    rw [peel, rdropWhile_behind (other p (by simp)), rdropWhile_append_run all]
    exact ih (fun q member => other q (List.mem_cons_of_mem _ member)) (runs.of_prefix (List.rdropWhile_prefix p head))

end Peel

end Text
