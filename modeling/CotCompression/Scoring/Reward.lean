import Mathlib.Data.Rat.Defs
import CotCompression.Generator.Python
import CotCompression.Shared.Pattern

set_option autoImplicit false

namespace CotCompression

open Text (lit isSpace isDecimal natOf)

-- int(t): blanks around it, a sign, and single underscores between digits are allowed.
def pyNat (digits : Text) : Except PyError Nat :=
  let parts := Text.split (lit "_") digits
  if ∀ part ∈ parts, part ≠ [] ∧ ∀ c ∈ part, isDecimal c = true then .ok (natOf parts.flatten)
  else .error .valueError

-- int(text), for any number of digits; its blanks are those of str.strip.
def pyInt (t : Text) : Except PyError Int :=
  match Text.strip t with
  | '-' :: digits => (pyNat digits).map fun n : Nat => -(n : Int)
  | '+' :: digits => (pyNat digits).map fun n : Nat => (n : Int)
  | digits => (pyNat digits).map fun n : Nat => (n : Int)

def sensitive (word : Text) : List (Char → Bool) := word.map fun c d => d == c

-- re.IGNORECASE on ASCII letters; the long s folds to s.
def sameLetter (c d : Char) : Bool :=
  d.toLower == c.toLower || (c.toLower == 's' && d.toNat == 0x17F)

def insensitive (word : Text) : List (Char → Bool) := word.map sameLetter

-- -?\d+
def numberPattern : Pattern := .seq (.opt (.one (· == '-'))) (.plus isDecimal)

-- A marker, blanks and a captured body.
def markerPattern (marker : List (Char → Bool)) (body : Pattern) : Pattern :=
  .seq (.word marker) (.seq (.star isSpace) (.group body))

def answerMarker : Text := lit "Answer:"

def group1 (m : Pattern.Match) : Text := m.groups.headD []

-- ANSWER_RE.findall of prepare_rlvr_data
def extractGroundTruth (solution : Text) : Option Text :=
  ((markerPattern (sensitive answerMarker) numberPattern).findall solution).getLast?.map group1

-- MOD
def rewardMod : Int := 23

-- _extract
def extract (text : Text) : Except PyError (Option Int) :=
  match ((markerPattern (insensitive answerMarker) numberPattern).findall text).getLast? with
  | some m => (pyInt (group1 m)).map some
  | none =>
    match (numberPattern.findall text).getLast? with
    | some m => (pyInt m.text).map some
    | none => .ok none

def computeScore (solutionStr groundTruth : Text) : Except PyError ℚ := do
  match ← extract solutionStr with
  | none => return 0
  | some pred =>
    let truth ← pyInt groundTruth
    return if pred % rewardMod = truth % rewardMod then 1 else 0

def readInt : Text → Option (Text × Text)
  | '-' :: c :: t =>
      if isDecimal c then some ('-' :: c :: t.takeWhile isDecimal, t.dropWhile isDecimal) else none
  | c :: t => if isDecimal c then some (c :: t.takeWhile isDecimal, t.dropWhile isDecimal) else none
  | [] => none

theorem numberPattern_first (t : Text) :
    numberPattern.first t = (readInt t).map fun (run, rest) => ⟨run, [], rest⟩ := by
  rw [numberPattern, Pattern.opt, Pattern.first_seq_alt, Pattern.first_seq_empty]
  rcases t with _ | ⟨c, t⟩
  · rfl
  · rw [Pattern.first_seq_one, Pattern.first_plus]
    by_cases minus : c = '-'
    · subst minus
      have notDecimal : isDecimal '-' = false := by decide
      rcases t with _ | ⟨d, t⟩
      · simp [readInt, notDecimal, Pattern.first_plus_nil]
      · rw [Pattern.first_plus]
        by_cases digit : isDecimal d = true <;> simp [readInt, notDecimal, digit]
    · rw [readInt.eq_2 _ _ (by rintro d t' rfl; exact fun _ => minus rfl)]
      by_cases digit : isDecimal c = true <;> simp [minus, digit]

theorem readInt_shape {t run rest : Text} (read : readInt t = some (run, rest)) :
    t = run ++ rest ∧ ((∃ digits, run = '-' :: digits ∧ digits ≠ [] ∧ ∀ c ∈ digits, isDecimal c = true) ∨
      (run ≠ [] ∧ ∀ c ∈ run, isDecimal c = true)) := by
  have all (c : Char) (t : Text) (digit : isDecimal c = true) :
      ∀ d ∈ c :: t.takeWhile isDecimal, isDecimal d = true := by
    simpa [digit] using fun d => List.mem_takeWhile_imp
  rcases t with _ | ⟨c, t⟩
  · cases read
  · by_cases minus : c = '-'
    · subst minus
      rcases t with _ | ⟨d, t⟩
      · have none : readInt ['-'] = none := by decide
        rw [none] at read
        cases read
      · rw [readInt] at read
        split at read
        · next digit =>
          obtain ⟨rfl, rfl⟩ := Prod.mk.inj (Option.some.inj read)
          exact ⟨by simp, .inl ⟨_, rfl, by simp, all d t digit⟩⟩
        · cases read
    · rw [readInt.eq_2 _ _ (by rintro d t' rfl; exact fun _ => minus rfl)] at read
      split at read
      · next digit =>
        obtain ⟨rfl, rfl⟩ := Prod.mk.inj (Option.some.inj read)
        exact ⟨by simp, .inr ⟨by simp, all c t digit⟩⟩
      · cases read

theorem readInt_chars {t run rest : Text} (read : readInt t = some (run, rest)) :
    run ≠ [] ∧ ∀ c ∈ run, c = '-' ∨ isDecimal c = true := by
  obtain ⟨_, ⟨digits, rfl, _, all⟩ | ⟨filled, all⟩⟩ := readInt_shape read
  · exact ⟨by simp, List.forall_mem_cons.mpr ⟨.inl rfl, fun c member => .inr (all c member)⟩⟩
  · exact ⟨filled, fun c member => .inr (all c member)⟩

theorem readInt_space {c : Char} (t : Text) (space : isSpace c = true) : readInt (c :: t) = none := by
  have notDecimal := Text.not_decimal_of_space space
  have notMinus : c ≠ '-' := by
    rintro rfl
    exact absurd space (by decide)
  rw [readInt.eq_2 _ _ (by rintro d t' rfl; exact fun _ => notMinus rfl), notDecimal]
  rfl

theorem pyNat_digits {digits : Text} (filled : digits ≠ []) (all : ∀ c ∈ digits, isDecimal c = true) :
    pyNat digits = .ok (natOf digits) := by
  have clear : '_' ∉ digits := fun member => absurd (all _ member) (by decide)
  have whole : Text.split (lit "_") digits = [digits] := Text.split_of_not_mem clear
  rw [pyNat, whole, if_pos (by simpa using ⟨filled, all⟩), List.flatten_singleton]

theorem pyInt_run {t run rest : Text} (read : readInt t = some (run, rest)) :
    pyInt run = .ok (Text.intOf run) := by
  have stripped : Text.strip run = run := by
    refine Text.strip_solid fun c member => ?_
    by_contra space
    have space : isSpace c = true := by simpa using space
    rcases (readInt_chars read).2 c member with rfl | digit
    · exact absurd space (by decide)
    · rw [Text.not_decimal_of_space space] at digit
      cases digit
  rw [pyInt, stripped]
  obtain ⟨_, ⟨digits, rfl, filled, all⟩ | ⟨filled, all⟩⟩ := readInt_shape read
  · change (pyNat digits).map (fun n : Nat => -(n : Int)) = _
    rw [pyNat_digits filled all]
    rfl
  · obtain ⟨c, more, rfl⟩ := List.exists_cons_of_ne_nil filled
    have digit := all c (by simp)
    have notMinus : c ≠ '-' := by
      rintro rfl
      exact absurd digit (by decide)
    have notPlus : c ≠ '+' := by
      rintro rfl
      exact absurd digit (by decide)
    rw [Text.intOf.eq_3 _ (by simpa using notMinus) (by simpa using notPlus)]
    split
    · simp_all
    · simp_all
    · rw [pyNat_digits filled all]
      rfl

section Marker

/-- A marker whose first letter cannot be met again before the captured number ends. -/
structure Heads (marker : List (Char → Bool)) : Prop where
  split : ∃ p ps, marker = p :: ps ∧ (∀ q ∈ ps, ∀ c, q c = true → p c = false) ∧
    ∀ c, (isSpace c = true ∨ isDecimal c = true ∨ c = '-') → p c = false

variable {marker : List (Char → Bool)}

theorem markerPattern_first (marker : List (Char → Bool)) (t : Text) :
    (markerPattern marker numberPattern).first t =
      (Pattern.dropWord marker t).bind fun rest =>
        (readInt (rest.dropWhile isSpace)).map fun (run, after) =>
          ⟨t.take marker.length ++ (rest.takeWhile isSpace ++ run), [run], after⟩ := by
  rw [markerPattern, Pattern.first_word_seq]
  congr 1
  funext rest
  rw [Pattern.first_star_seq_of_stops, Pattern.first_group, numberPattern_first]
  · cases readInt (rest.dropWhile isSpace) <;> rfl
  · intro c t space
    rw [Pattern.first_group, numberPattern_first, readInt_space t space]
    rfl

theorem dropWord_head {p : Char → Bool} {ps : List (Char → Bool)} {c : Char} (t : Text)
    (differs : p c = false) : Pattern.dropWord (p :: ps) (c :: t) = none := by
  simp [Pattern.dropWord, differs]

theorem markerPattern_apart (heads : Heads marker) (t : Text) (m : Pattern.Match)
    (found : (markerPattern marker numberPattern).first t = some m) :
    m.text ≠ [] ∧ ∀ v, v ≠ [] → v <:+ m.text.tail →
      (markerPattern marker numberPattern).first (v ++ m.rest) = none := by
  obtain ⟨p, ps, rfl, differs, others⟩ := heads.split
  rw [markerPattern_first] at found
  obtain ⟨rest, dropped, found⟩ := Option.bind_eq_some_iff.mp found
  obtain ⟨⟨run, after⟩, read, rfl⟩ := Option.map_eq_some_iff.mp found
  obtain ⟨front, rfl, all⟩ := Pattern.dropWord_split dropped
  obtain ⟨x, front, rfl⟩ : ∃ x tail, front = x :: tail := by cases all; exact ⟨_, _, rfl⟩
  have tail := (List.forall₂_cons.mp all).2
  have text : (x :: front ++ rest).take (p :: ps).length = x :: front := by
    rw [all.length_eq, List.take_left]
  simp only [text]
  refine ⟨by simp, ?_⟩
  intro v filled inside
  obtain ⟨c, v, rfl⟩ := List.exists_cons_of_ne_nil filled
  have member : c ∈ front ++ (rest.takeWhile isSpace ++ run) := inside.subset (by simp)
  have off : p c = false := by
    rcases List.mem_append.mp member with member | member
    · obtain ⟨q, inPs, holds⟩ := Pattern.word_mem tail member
      exact differs q inPs c holds
    · rcases List.mem_append.mp member with member | member
      · exact others c (.inl (List.mem_takeWhile_imp member))
      · rcases (readInt_chars read).2 c member with minus | digit
        · exact others c (.inr (.inr minus))
        · exact others c (.inr (.inl digit))
  rw [markerPattern_first, List.cons_append, dropWord_head _ off]
  rfl

theorem markerPattern_nil (heads : Heads marker) :
    (markerPattern marker numberPattern).first [] = none := by
  obtain ⟨p, ps, rfl, _⟩ := heads.split
  rw [markerPattern_first]
  rfl

theorem findall_last (heads : Heads marker) {front word rest run after : Text}
    (marked : List.Forall₂ (fun p c => p c = true) marker word)
    (read : readInt (rest.dropWhile isSpace) = some (run, after))
    (last : ∀ v, v <:+ rest → Pattern.dropWord marker v = none) :
    (((markerPattern marker numberPattern).findall (front ++ (word ++ rest))).getLast?.map group1) =
      some run := by
  have found := markerPattern_first marker (word ++ rest)
  rw [Pattern.dropWord_append rest marked, Option.bind_some, read, Option.map_some] at found
  rw [Pattern.findall_getLast? (markerPattern_apart heads) (markerPattern_nil heads)
    (List.suffix_append front _) found]
  · rfl
  · intro v inside differs
    rw [markerPattern_first]
    obtain ⟨p, ps, rfl, apart, _⟩ := heads.split
    rcases Text.suffix_append_cases inside with within | ⟨w, rfl, wordEnd⟩
    · rw [last v within]
      rfl
    · rcases w with _ | ⟨c, w⟩
      · rw [List.nil_append, last rest (List.suffix_refl _)]
        rfl
      · -- a marker that starts behind the first letter of this one
        obtain ⟨x, tail, rfl⟩ : ∃ x tail, word = x :: tail := by cases marked; exact ⟨_, _, rfl⟩
        have member : c ∈ tail := by
          rcases List.suffix_cons_iff.mp wordEnd with same | within
          · exact absurd (by rw [same]) differs
          · exact within.subset (by simp)
        obtain ⟨q, known, holds⟩ := Pattern.word_mem (List.forall₂_cons.mp marked).2 member
        rw [List.cons_append, dropWord_head _ (apart q known c holds)]
        rfl

end Marker

theorem toLower_eq_a {c : Char} (lower : c.toLower = 'a') : c ∈ ['a', 'A'] := by
  unfold Char.toLower at lower
  split at lower
  · next upper =>
    have low : 'A'.val.toNat = 65 := rfl
    have high : 'Z'.val.toNat = 90 := rfl
    have value := congrArg (fun d : Char => d.val.toNat) lower
    simp only [ge_iff_le, UInt32.le_iff_toNat_le] at upper
    have same : c = 'A' := by
      apply Char.ext
      apply UInt32.toNat.inj
      have point : c.toNat = c.val.toNat := rfl
      simp at value
      omega
    simp [same]
  · simp [lower]

theorem heads_of_letters {p : Char → Bool} {ps : List (Char → Bool)} {letters : List Char}
    (among : ∀ c, p c = true → c ∈ letters)
    (apart : ∀ c ∈ letters, (∀ q ∈ ps, q c = false) ∧ isSpace c = false ∧ isDecimal c = false ∧ c ≠ '-') :
    Heads (p :: ps) := by
  refine ⟨p, ps, rfl, ?_, ?_⟩
  · intro q known c holds
    by_contra head
    rw [(apart c (among c (by simpa using head))).1 q known] at holds
    cases holds
  · intro c kind
    by_contra head
    obtain ⟨_, space, digit, minus⟩ := apart c (among c (by simpa using head))
    simp_all

theorem answerMarker_letters : answerMarker = ['A', 'n', 's', 'w', 'e', 'r', ':'] := by decide

theorem heads_sensitive : Heads (sensitive answerMarker) := by
  rw [answerMarker_letters]
  have among : ∀ c : Char, (c == 'A') = true → c ∈ ['A'] := by simp
  exact heads_of_letters among (by decide)

theorem heads_insensitive : Heads (insensitive answerMarker) := by
  rw [answerMarker_letters]
  have among : ∀ c : Char, sameLetter 'A' c = true → c ∈ ['a', 'A'] := by
    intro c head
    refine toLower_eq_a ?_
    have no : ('A'.toLower == 's') = false := by decide
    rw [sameLetter, no] at head
    simpa using head
  exact heads_of_letters among (by decide)

def IsInteger (run : Text) : Prop :=
  ∃ digits, (run = digits ∨ run = '-' :: digits) ∧ digits ≠ [] ∧ ∀ c ∈ digits, isDecimal c = true

-- The text's last marker is followed by blanks and the integer literal `run`.
def LastMarked (marker : List (Char → Bool)) (text run : Text) : Prop :=
  ∃ front word blanks after, text = front ++ (word ++ (blanks ++ (run ++ after))) ∧
    List.Forall₂ (fun p c => p c = true) marker word ∧ (∀ c ∈ blanks, isSpace c = true) ∧
    IsInteger run ∧ (∀ c more, after = c :: more → isDecimal c = false) ∧
    ∀ v, v <:+ blanks ++ (run ++ after) → Pattern.dropWord marker v = none

-- `n` is the integer behind the last "Answer:", in any case.
def LastAnswer (text : Text) (n : Int) : Prop :=
  ∃ run, LastMarked (insensitive answerMarker) text run ∧ Text.intOf run = n

theorem takeWhile_digits {digits after : Text} (all : ∀ c ∈ digits, isDecimal c = true)
    (stops : ∀ c more, after = c :: more → isDecimal c = false) :
    (digits ++ after).takeWhile isDecimal = digits ∧ (digits ++ after).dropWhile isDecimal = after := by
  have here : after.takeWhile isDecimal = [] ∧ after.dropWhile isDecimal = after := by
    cases after with
    | nil => exact ⟨rfl, rfl⟩
    | cons c more => simp [stops c more rfl]
  rw [List.takeWhile_append_of_pos all, List.dropWhile_append_of_pos all, here.1, here.2]
  simp

theorem readInt_integer {run after : Text} (integer : IsInteger run)
    (stops : ∀ c more, after = c :: more → isDecimal c = false) :
    readInt (run ++ after) = some (run, after) := by
  obtain ⟨digits, shape, filled, all⟩ := integer
  obtain ⟨c, digits, rfl⟩ := List.exists_cons_of_ne_nil filled
  have digit := all c (by simp)
  obtain ⟨takes, drops⟩ := takeWhile_digits (fun d member => all d (List.mem_cons_of_mem c member)) stops
  rcases shape with rfl | rfl
  · have notMinus : c ≠ '-' := by
      rintro rfl
      exact absurd digit (by decide)
    rw [List.cons_append, readInt.eq_2 _ _ (by rintro d t' rfl; exact fun _ => notMinus rfl), if_pos digit,
      takes, drops]
  · rw [List.cons_append, List.cons_append, readInt, if_pos digit, takes, drops]

theorem not_space_of_integer {run : Text} (integer : IsInteger run) :
    ∃ c more, run = c :: more ∧ isSpace c = false := by
  obtain ⟨digits, rfl | rfl, filled, all⟩ := integer
  · obtain ⟨c, digits, rfl⟩ := List.exists_cons_of_ne_nil filled
    refine ⟨c, digits, rfl, ?_⟩
    by_contra space
    have digit := all c (by simp)
    rw [Text.not_decimal_of_space (by simpa using space)] at digit
    cases digit
  · exact ⟨'-', digits, rfl, by decide⟩

theorem dropWhile_blanks {blanks rest : Text} {c : Char} (blank : ∀ d ∈ blanks, isSpace d = true)
    (solid : isSpace c = false) : (blanks ++ c :: rest).dropWhile isSpace = c :: rest := by
  rw [List.dropWhile_append_of_pos blank]
  simp [solid]

theorem LastMarked.findall {marker : List (Char → Bool)} {text run : Text} (heads : Heads marker)
    (marked : LastMarked marker text run) :
    ((markerPattern marker numberPattern).findall text).getLast?.map group1 = some run ∧
      pyInt run = .ok (Text.intOf run) := by
  obtain ⟨front, word, blanks, after, rfl, matched, blank, integer, stops, last⟩ := marked
  obtain ⟨c, more, shape, solid⟩ := not_space_of_integer integer
  have read := readInt_integer integer stops
  have behind : readInt ((blanks ++ (run ++ after)).dropWhile isSpace) = some (run, after) := by
    rw [shape, List.cons_append, dropWhile_blanks blank solid, ← List.cons_append, ← shape, read]
  exact ⟨findall_last heads matched behind last, pyInt_run read⟩

theorem extract_lastAnswer {text : Text} {n : Int} (last : LastAnswer text n) :
    extract text = .ok (some n) := by
  obtain ⟨run, marked, rfl⟩ := last
  obtain ⟨found, read⟩ := marked.findall heads_insensitive
  obtain ⟨m, getLast, same⟩ := Option.map_eq_some_iff.mp found
  rw [extract, getLast]
  simp only [same, read]
  rfl

theorem computeScore_lastAnswer {text groundTruth : Text} {n truth : Int} (last : LastAnswer text n)
    (read : pyInt groundTruth = .ok truth) :
    computeScore text groundTruth = .ok (if n % 23 = truth % 23 then 1 else 0) := by
  rw [computeScore, extract_lastAnswer last, ok_bind]
  simp only [read, ok_bind]
  rfl

theorem isInteger_decimal (z : Int) : IsInteger (Text.decimal z) := by
  have digits (n : Nat) : ∀ c ∈ Nat.toDigits 10 n, isDecimal c = true :=
    Text.forall_toDigits (by decide) n
  cases z with
  | ofNat n => exact ⟨_, .inl rfl, Nat.toDigits_ne_nil, digits n⟩
  | negSucc n => exact ⟨_, .inr rfl, Nat.toDigits_ne_nil, digits (n + 1)⟩

theorem pyInt_decimal (z : Int) : pyInt (Text.decimal z) = .ok z := by
  have stops : ∀ c more, ([] : Text) = c :: more → isDecimal c = false := by simp
  rw [pyInt_run (readInt_integer (isInteger_decimal z) stops), Text.intOf_decimal]

theorem colon_sensitive : ∃ p ∈ sensitive answerMarker, ∀ c, p c = true → c = ':' := by
  rw [answerMarker_letters]
  exact ⟨fun d => d == ':', by simp [sensitive], fun c same => by simpa using same⟩

theorem sameLetter_sign {sign c : Char} (before : sign.toNat < 65) (same : sameLetter sign c = true) :
    c = sign := by
  have low : 'A'.val.toNat = 65 := rfl
  have high : 'Z'.val.toNat = 90 := rfl
  have signLower : sign.toLower = sign := by
    unfold Char.toLower
    rw [dif_neg]
    simp only [ge_iff_le, UInt32.le_iff_toNat_le, not_and]
    have point : sign.toNat = sign.val.toNat := rfl
    omega
  have notS : (sign.toLower == 's') = false := by
    rw [signLower, beq_eq_false_iff_ne]
    rintro rfl
    exact absurd before (by decide)
  rw [sameLetter, notS, signLower] at same
  have lower : c.toLower = sign := by simpa using same
  unfold Char.toLower at lower
  split at lower
  · next upper =>
    have value := congrArg (fun d : Char => d.val.toNat) lower
    have point : c.toNat = c.val.toNat := rfl
    have signPoint : sign.toNat = sign.val.toNat := rfl
    simp only [ge_iff_le, UInt32.le_iff_toNat_le] at upper
    simp at value
    omega
  · exact lower

theorem colon_insensitive : ∃ p ∈ insensitive answerMarker, ∀ c, p c = true → c = ':' := by
  rw [answerMarker_letters]
  exact ⟨sameLetter ':', by simp [insensitive], fun c same => sameLetter_sign (by decide) same⟩

theorem dropWord_clear {marker : List (Char → Bool)} (colon : ∃ p ∈ marker, ∀ c, p c = true → c = ':')
    {t : Text} (clear : ':' ∉ t) : Pattern.dropWord marker t = none := by
  obtain ⟨p, member, only⟩ := colon
  refine Pattern.dropWord_eq_none member fun c inside => ?_
  by_contra holds
  rw [only c (by simpa using holds)] at inside
  exact clear inside

end CotCompression
