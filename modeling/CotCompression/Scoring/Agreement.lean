import CotCompression.Scoring.Decoders
import CotCompression.Scoring.Numeral

set_option autoImplicit false

namespace CotCompression

open Program (Prog)
open Text (lit decimal isSpace isDecimal strip rstripDots)

-- What stands behind each place where a marker is found, from the first place to the last.
def behindMarkers (marker : List (Char → Bool)) (text : Text) : List Text :=
  text.tails.filterMap (Pattern.dropWord marker)

section Places

variable {marker : List (Char → Bool)} {text rest : Text} {more : List Text}

theorem behindMarkers_cons (c : Char) (text : Text) : behindMarkers marker (c :: text) =
    (Pattern.dropWord marker (c :: text)).toList ++ behindMarkers marker text := by
  rw [behindMarkers, List.tails_cons]
  cases found : Pattern.dropWord marker (c :: text) <;> simp [found, behindMarkers]

theorem behindMarkers_nil (empty : behindMarkers marker text = []) {v : Text} (inside : v <:+ text) :
    Pattern.dropWord marker v = none :=
  List.filterMap_eq_nil_iff.mp empty v ((List.mem_tails v text).mpr inside)

theorem behindMarkers_head (filled : marker ≠ []) (found : behindMarkers marker text = rest :: more) :
    ∃ front word, text = front ++ (word ++ rest) ∧
      List.Forall₂ (fun p c => p c = true) marker word ∧
      ∀ v, v ≠ [] → v <:+ front → Pattern.dropWord marker (v ++ (word ++ rest)) = none := by
  induction text with
  | nil =>
    obtain ⟨p, ps, rfl⟩ := List.exists_cons_of_ne_nil filled
    cases found
  | cons c text ih =>
    rw [behindMarkers_cons] at found
    cases here : Pattern.dropWord marker (c :: text) with
    | some behind =>
      rw [here] at found
      obtain ⟨rfl, _⟩ := List.cons.inj found
      obtain ⟨word, split, all⟩ := Pattern.dropWord_split here
      refine ⟨[], word, split, all, fun v some inside => ?_⟩
      exact absurd (List.suffix_nil.mp inside) some
    | none =>
      rw [here] at found
      obtain ⟨front, word, rfl, all, none⟩ := ih found
      refine ⟨c :: front, word, rfl, all, fun v some inside => ?_⟩
      rcases List.suffix_cons_iff.mp inside with rfl | within
      · exact here
      · exact none v some within

theorem behindMarkers_last (filled : marker ≠ [])
    (found : (behindMarkers marker text).getLast? = some rest) :
    ∃ front word, text = front ++ (word ++ rest) ∧
      List.Forall₂ (fun p c => p c = true) marker word ∧
      ∀ v, v <:+ rest → Pattern.dropWord marker v = none := by
  induction text with
  | nil =>
    obtain ⟨p, ps, rfl⟩ := List.exists_cons_of_ne_nil filled
    cases found
  | cons c text ih =>
    rw [behindMarkers_cons, List.getLast?_append] at found
    cases later : (behindMarkers marker text).getLast? with
    | some last =>
      rw [later] at found
      obtain rfl := Option.some.inj found
      obtain ⟨front, word, rfl, all, none⟩ := ih later
      exact ⟨c :: front, word, rfl, all, none⟩
    | none =>
      rw [later, Option.none_or] at found
      have here : Pattern.dropWord marker (c :: text) = some rest := by
        cases dropped : Pattern.dropWord marker (c :: text) <;> simp_all
      obtain ⟨word, split, all⟩ := Pattern.dropWord_split here
      refine ⟨[], word, split, all, fun v inside => ?_⟩
      obtain ⟨d, tail, rfl⟩ : ∃ d tail, word = d :: tail := by
        obtain ⟨p, ps, rfl⟩ := List.exists_cons_of_ne_nil filled
        cases all
        exact ⟨_, _, rfl⟩
      obtain ⟨-, rfl⟩ := List.cons.inj split
      exact behindMarkers_nil (List.getLast?_eq_none_iff.mp later) (inside.trans (List.suffix_append _ _))

end Places

-- Blanks, an integer in 0..22 and a full stop.
def Numbered (rest : Text) : Prop :=
  ∃ run after, readInt (rest.dropWhile isSpace) = some (run, '.' :: after) ∧
    0 ≤ Text.intOf run ∧ Text.intOf run ≤ 22

/-- The responses meant: no tag, at least one marker, and each marker in any case is "Answer:"
itself with a number behind it. -/
structure Shaped (text : Text) : Prop where
  untagged : tagPattern.search text = none
  marked : behindMarkers (sensitive answerMarker) text ≠ []
  exactly : behindMarkers (insensitive answerMarker) text = behindMarkers (sensitive answerMarker) text
  numbered : ∀ rest ∈ behindMarkers (sensitive answerMarker) text, Numbered rest

-- The rest of the first marker's line, up to a tag.
def firstLine (text : Text) : Text :=
  (((behindMarkers (sensitive answerMarker) text).headD []).dropWhile isSpace).takeWhile onLine

def lastInteger (text : Text) : Int :=
  match readInt (((behindMarkers (sensitive answerMarker) text).getLastD []).dropWhile isSpace) with
  | some (run, _) => Text.intOf run
  | none => 0

-- The first marker's line is a number, as a double within the tolerance of `n`.
def FirstShows (text : Text) (n : Int) : Prop :=
  ∃ numeral : Numeral, numeral.text = firstLine text ∧
    near64 (Binary64.round numeral.value) (Binary64.round n) = true

section Near

variable {a b q : ℚ} {m n : Int}

theorem max_finite (a b : ℚ) : (Binary64.finite a).max (.finite b) = .finite (max a b) := by
  simp only [Binary64.max, Binary64.le, Bool.and_eq_true, Bool.not_eq_true', decide_eq_true_eq,
    decide_eq_false_iff_not, not_le]
  split
  · next less => rw [max_eq_right less.1]
  · next not => rw [max_eq_left (not_lt.mp fun less => not ⟨less.le, less⟩)]

theorem small_power (small : |q| ≤ 100) : |q| < 2 ^ 1000 := by
  have more : (2 : ℚ) ^ 7 ≤ 2 ^ 1000 := pow_le_pow_right₀ one_le_two (by decide)
  have below : |q| < 2 ^ 7 := by linarith
  exact below.trans_le more

theorem epsilon_finite : ∃ e, Binary64.round (1 / 10 ^ 8) = .finite e ∧ 0 ≤ e ∧ e ≤ 1 / 90 := by
  have close := abs_le.mp (Binary64.nearest_close (1 / 10 ^ 8))
  have size : |(1 / 10 ^ 8 : ℚ)| = 1 / 10 ^ 8 := abs_of_nonneg (by positivity)
  rw [size] at close
  refine ⟨_, Binary64.round_small (small_power ?_), Binary64.nearest_nonneg (by positivity), ?_⟩
  · rw [size]
    norm_num
  · linarith

theorem near64_finite (left : |a| ≤ 24) (right : |b| ≤ 22) : ∃ bound, 0 ≤ bound ∧ bound ≤ 1 / 3 ∧
    (near64 (.finite a) (.finite b) = true ↔ |Binary64.nearest (a - b)| ≤ bound) := by
  obtain ⟨e, epsilon, nonneg, small⟩ := epsilon_finite
  have one : Binary64.round 1 = .finite 1 := by
    have unit := @Binary64.round_int 1 (by decide)
    rwa [Int.cast_one] at unit
  have largest : max (max 1 |a|) |b| ≤ 24 := max_le (max_le (by norm_num) left) (right.trans (by norm_num))
  have positive : 0 ≤ max (max 1 |a|) |b| := (abs_nonneg b).trans (le_max_right _ _)
  have product : 0 ≤ e * max (max 1 |a|) |b| := mul_nonneg nonneg positive
  have below : e * max (max 1 |a|) |b| ≤ 1 / 90 * 24 := mul_le_mul small largest positive (by norm_num)
  have close := abs_le.mp (Binary64.nearest_close (e * max (max 1 |a|) |b|))
  rw [abs_of_nonneg product] at close
  have apart := abs_sub a b
  refine ⟨_, Binary64.nearest_nonneg product, by linarith, ?_⟩
  have difference : Binary64.round (a - b) = .finite (Binary64.nearest (a - b)) :=
    Binary64.round_small (small_power (by linarith))
  have bound : Binary64.round (e * max (max 1 |a|) |b|) = .finite (Binary64.nearest (e * max (max 1 |a|) |b|)) :=
    Binary64.round_small (small_power (by rw [abs_of_nonneg product]; linarith))
  simp only [near64, Binary64.sub, Binary64.abs, difference, epsilon, one, max_finite, Binary64.mul, bound,
    Binary64.le, decide_eq_true_eq]

theorem small_int (nonneg : 0 ≤ n) (small : n ≤ 22) : Binary64.round n = .finite n ∧ |(n : ℚ)| ≤ 22 := by
  have size : |n| ≤ 22 := by rwa [abs_of_nonneg nonneg]
  exact ⟨Binary64.round_int (size.trans_lt (by norm_num)), by exact_mod_cast size⟩

theorem near64_close (small : |q| < 23) (nonneg : 0 ≤ n) (below : n ≤ 22)
    (near : near64 (Binary64.round q) (Binary64.round n) = true) : |Binary64.nearest q - n| < 1 / 2 := by
  have rounded : Binary64.round q = .finite (Binary64.nearest q) :=
    Binary64.round_small (small_power (by linarith))
  obtain ⟨same, size⟩ := small_int nonneg below
  have close := Binary64.nearest_close q
  have left : |Binary64.nearest q| ≤ 24 := by
    have triangle := abs_sub_abs_le_abs_sub (Binary64.nearest q) q
    linarith
  obtain ⟨bound, _, third, iff⟩ := near64_finite left size
  rw [rounded, same, iff] at near
  have error := Binary64.nearest_close (Binary64.nearest q - n)
  have triangle := abs_sub_abs_le_abs_sub (Binary64.nearest q - n) (Binary64.nearest (Binary64.nearest q - n))
  rw [abs_sub_comm] at error
  linarith

theorem near64_unique (size : |q| < 23) (nonneg : 0 ≤ m) (small : m ≤ 22) (nonneg' : 0 ≤ n) (small' : n ≤ 22)
    (near : near64 (Binary64.round q) (Binary64.round m) = true)
    (near' : near64 (Binary64.round q) (Binary64.round n) = true) : m = n := by
  have left := abs_lt.mp (near64_close size nonneg small near)
  have right := abs_lt.mp (near64_close size nonneg' small' near')
  have below : (m : ℚ) < n + 1 := by linarith
  have above : (n : ℚ) < m + 1 := by linarith
  have below : m < n + 1 := by exact_mod_cast below
  have above : n < m + 1 := by exact_mod_cast above
  omega

example : near64 (Binary64.round (99999999 / 10 ^ 8)) (Binary64.round 1) = false := by decide +kernel

theorem near64_self (nonneg : 0 ≤ n) (small : n ≤ 22) :
    near64 (Binary64.round n) (Binary64.round n) = true := by
  obtain ⟨same, size⟩ := small_int nonneg small
  obtain ⟨bound, positive, _, iff⟩ := near64_finite (size.trans (by norm_num)) size
  rwa [same, iff, sub_self, Binary64.nearest_zero, abs_zero]

end Near

theorem rstripDots_split (t : Text) : ∃ dots, t = rstripDots t ++ dots ∧ ∀ c ∈ dots, c = '.' :=
  ⟨t.rtakeWhile (· == '.'), (List.rdropWhile_append_rtakeWhile ..).symm, fun c member => by
    simpa using List.mem_rtakeWhile_imp member⟩

theorem matchWith_decimal {α : Type} {ratio : ℚ → Option α} {float : ℚ → α} {near : α → α → Bool} (pred : Text)
    (z : Int) : matchWith (parseWith ratio float) near pred (decimal z) = 1 ↔
      ∃ a, parseWith ratio float pred = some a ∧ near a (float z) = true := by
  have number : parseWith ratio float (decimal z) = some (float z) := parseWith_literal (isLiteral_decimal z)
  rw [matchWith, if_neg (Text.decimal_ne_nil z), number]
  cases parsed : parseWith ratio float pred with
  | some a =>
    simp only [Option.some.injEq, exists_eq_left']
    split <;> simp_all
  | none =>
    simp only [reduceCtorEq, false_and, exists_false, iff_false]
    have plain : rstripDots (decimal z) = decimal z := Text.rstripDots_of_not_mem (decimal_no_dot z)
    rw [plain, if_neg]
    · decide
    · intro same
      rw [← parseWith_congr (s := pred), parsed] at number
      · cases number
      · obtain ⟨dots, split, all⟩ := rstripDots_split pred
        have solid : ∀ c ∈ pred, isSpace c = false := by
          rw [split, same]
          refine List.forall_mem_append.mpr ⟨solid_decimal z, fun c member => ?_⟩
          rw [all c member]
          decide
        rw [Text.strip_solid solid, same, Text.strip_solid (solid_decimal z), plain]

section Shaped

variable {text : Text}

theorem heads_exact : sensitive answerMarker ≠ [] := by decide

theorem numbered_line {rest : Text} (numbered : Numbered rest) :
    ∃ c, rest.dropWhile isSpace = c :: (rest.dropWhile isSpace).tail ∧ onLine c = true := by
  obtain ⟨run, after, read, _⟩ := numbered
  obtain ⟨split, _⟩ := readInt_shape read
  obtain ⟨filled, chars⟩ := readInt_chars read
  obtain ⟨c, more, rfl⟩ := List.exists_cons_of_ne_nil filled
  refine ⟨c, by rw [split]; rfl, ?_⟩
  rcases chars c (by simp) with rfl | digit
  · decide
  · have notBreak : c ≠ '\n' := by
      rintro rfl
      exact absurd digit (by decide)
    have notOpen : c ≠ '<' := by
      rintro rfl
      exact absurd digit (by decide)
    simp [onLine, notBreak, notOpen]

theorem Shaped.extractAnswer_eq (shaped : Shaped text) :
    extractAnswer text = rstripDots (strip (firstLine text)) := by
  obtain ⟨rest, more, found⟩ := List.exists_cons_of_ne_nil shaped.marked
  obtain ⟨front, word, split, all, none⟩ := behindMarkers_head heads_exact found
  obtain ⟨c, line, starts⟩ := numbered_line (shaped.numbered rest (by rw [found]; simp))
  obtain ⟨m, matched, captured⟩ := linePattern_first all line starts
  have searched : linePattern.search text = some m := by
    rw [split]
    refine Pattern.search_append matched fun v filled inside => ?_
    rw [linePattern, markerPattern, Pattern.first_word_seq, none v filled inside]
    rfl
  rw [extractAnswer, shaped.untagged, searched]
  simp only [captured, firstLine, found, List.headD_cons]

theorem Shaped.lastAnswer (shaped : Shaped text) :
    LastAnswer text (lastInteger text) ∧ 0 ≤ lastInteger text ∧ lastInteger text ≤ 22 := by
  obtain ⟨rest, found⟩ : ∃ rest, (behindMarkers (sensitive answerMarker) text).getLast? = some rest :=
    ⟨_, List.getLast?_eq_some_getLast shaped.marked⟩
  obtain ⟨run, after, read, nonneg, small⟩ := shaped.numbered rest (List.mem_of_getLast? found)
  have value : lastInteger text = Text.intOf run := by
    rw [lastInteger, List.getLastD_eq_getLast?, found, Option.getD_some, read]
  rw [← shaped.exactly] at found
  obtain ⟨front, word, split, all, none⟩ := behindMarkers_last (by decide) found
  obtain ⟨shape, digits⟩ := readInt_shape read
  rw [value]
  refine ⟨⟨run, ⟨front, word, rest.takeWhile isSpace, '.' :: after, ?_, all, fun c => List.mem_takeWhile_imp, ?_,
    ?_, ?_⟩, rfl⟩, nonneg, small⟩
  · rw [← shape, List.takeWhile_append_dropWhile]
    exact split
  · rcases digits with ⟨digits, rfl, filled, all⟩ | ⟨filled, all⟩
    · exact ⟨digits, .inr rfl, filled, all⟩
    · exact ⟨run, .inl rfl, filled, all⟩
  · rintro c more same
    obtain ⟨rfl, _⟩ := List.cons.inj same
    decide
  · rw [← shape, List.takeWhile_append_dropWhile]
    exact none

theorem Shaped.firstLine_starts (shaped : Shaped text) : ∃ sign digits after,
    firstLine text = sign ++ digits ++ '.' :: after ∧ (sign = [] ∨ sign = ['-']) ∧ digits ≠ [] ∧
      (∀ c ∈ digits, isDecimal c = true) ∧ Text.natOf digits ≤ 22 := by
  obtain ⟨rest, more, found⟩ := List.exists_cons_of_ne_nil shaped.marked
  obtain ⟨run, after, read, nonneg, small⟩ := shaped.numbered rest (by rw [found]; simp)
  obtain ⟨split, shape⟩ := readInt_shape read
  obtain ⟨_, chars⟩ := readInt_chars read
  have solid : ∀ c ∈ run, onLine c = true := by
    intro c member
    rcases chars c member with rfl | digit
    · decide
    · rw [onLine, Bool.and_eq_true, bne_iff_ne, bne_iff_ne]
      constructor
      all_goals
        rintro rfl
        exact absurd digit (by decide)
  have line : firstLine text = run ++ '.' :: after.takeWhile onLine := by
    rw [firstLine, found, List.headD_cons, split, List.takeWhile_append_of_pos solid, List.takeWhile_cons_of_pos]
    decide
  rw [line]
  rcases shape with ⟨digits, rfl, filled, all⟩ | ⟨filled, all⟩
  · refine ⟨['-'], digits, _, rfl, .inr rfl, filled, all, ?_⟩
    have value : Text.intOf ('-' :: digits) = -(Text.natOf digits : Int) := rfl
    omega
  · refine ⟨[], run, _, rfl, .inl rfl, filled, all, ?_⟩
    obtain ⟨c, more, rfl⟩ := List.exists_cons_of_ne_nil filled
    obtain ⟨_, _, _, _, minus, plus⟩ := digit_plain (all c (by simp))
    rw [Text.intOf.eq_3 _ (by simpa using minus) (by simpa using plus)] at small
    omega

theorem Shaped.value_small (shaped : Shaped text) {numeral : Numeral} (same : numeral.text = firstLine text) :
    |numeral.value| < 23 := by
  obtain ⟨sign, digits, after, starts, signed, filled, all, small⟩ := shaped.firstLine_starts
  have parsed := @Numeral.parse_text ℚ some id numeral
  obtain ⟨other, _, whole, value⟩ := numeral_of_parse (same.trans starts) signed filled all parsed
  rw [id_eq, id_eq] at value
  have below := other.value_lt
  rw [whole, ← value] at below
  have cast : (Text.natOf digits : ℚ) ≤ 22 := by exact_mod_cast small
  linarith

theorem Shaped.metric_iff (shaped : Shaped text) (z : Int) :
    exactMatch64 (strip (extractAnswer text)) (decimal z) = 1 ↔ FirstShows text z := by
  rw [exactMatch64, parseNumeric64, matchWith_decimal, shaped.extractAnswer_eq]
  constructor
  · rintro ⟨a, parsed, near⟩
    obtain ⟨sign, digits, after, starts, signed, filled, all, _⟩ := shaped.firstLine_starts
    obtain ⟨numeral, same, _, rfl⟩ := numeral_of_parse starts signed filled all parsed
    exact ⟨numeral, same, near⟩
  · rintro ⟨numeral, same, near⟩
    exact ⟨_, same ▸ numeral.parse_text, near⟩

theorem Shaped.shows_unique (shaped : Shaped text) {m n : Int} (nonneg : 0 ≤ m) (small : m ≤ 22) (nonneg' : 0 ≤ n)
    (small' : n ≤ 22) (shows : FirstShows text m) (shows' : FirstShows text n) : m = n := by
  obtain ⟨numeral, same, near⟩ := shows
  obtain ⟨other, same', near'⟩ := shows'
  have parsed := @Numeral.parse_text ℚ some id numeral
  rw [same, ← same', Numeral.parse_text] at parsed
  have value : other.value = numeral.value := Option.some.inj parsed
  rw [value] at near'
  exact near64_unique (shaped.value_small same) nonneg small nonneg' small' near near'

end Shaped

theorem Generated.answer_bounds {op mod : Int} {data : ChainData} (generated : Generated op mod data)
    (positive : 1 ≤ mod) (filled : 1 ≤ op) :
    0 ≤ data.value data.ops.length ∧ data.value data.ops.length < mod := by
  have follows := generated.follows positive
  have length := generated.length
  have below := follows.value_lt positive (by omega : data.ops.length - 1 < data.ops.length)
  rw [Nat.sub_add_cancel (by omega)] at below
  exact ⟨follows.value_nonneg positive le_rfl, below⟩

theorem Generated.last_value {op mod : Int} {data : ChainData} (generated : Generated op mod data) :
    data.values.getLast? = some (data.value data.ops.length) := by
  have found := generated.sized.last_value
  rw [lastItem] at found
  cases last : data.values.getLast? <;> simp_all

-- A record of mod 23 with at least one operation, by its solution and its answer.
def Recorded (s : Text) (answer : Int) : Prop :=
  ∃ op numberRange data, ∃ renderer : Renderer, 1 ≤ op ∧ (generateChain op numberRange 23).Returns data ∧
    (renderer.run variableNames data 23).Returns s ∧ data.values.getLast? = some answer

-- Training reward and evaluation metric say the same of a response to the record's problem.
def Agree (text s : Text) : Prop :=
  ∃ gt gold, extractGroundTruth s = some gt ∧ getGold ⟨none, some s, none⟩ = .ok gold ∧
    (computeScore text gt = .ok 1 ↔ exactMatch64 (strip (extractAnswer text)) gold = 1)

theorem Recorded.solution {s : Text} {answer : Int} (recorded : Recorded s answer) :
    Solution s answer ∧ 0 ≤ answer ∧ answer ≤ 22 := by
  obtain ⟨op, numberRange, data, renderer, filled, drawn, rendered, last⟩ := recorded
  have generated := generateChain_returns drawn
  obtain rfl := Option.some.inj (generated.last_value.symm.trans last)
  obtain ⟨nonneg, below⟩ := generated.answer_bounds (by decide) filled
  exact ⟨generated.rendered renderer rendered, nonneg, by omega⟩

section Agree

variable {text s : Text} {answer : Int}

theorem Shaped.agree_iff (shaped : Shaped text) (recorded : Recorded s answer) : Agree text s ↔
    (answer = lastInteger text ↔ FirstShows text answer) := by
  obtain ⟨solution, nonneg, below⟩ := recorded.solution
  obtain ⟨last, lastNonneg, lastSmall⟩ := shaped.lastAnswer
  have truth := extractGroundTruth_solution solution
  have gold := getGold_solution solution none
  have reward : computeScore text (decimal answer) = .ok 1 ↔ answer = lastInteger text := by
    rw [computeScore_lastAnswer last (pyInt_decimal answer), Int.emod_eq_of_lt lastNonneg (by omega),
      Int.emod_eq_of_lt nonneg (by omega), @eq_comm _ answer]
    by_cases same : lastInteger text = answer <;> simp [same]
  rw [← reward, ← shaped.metric_iff]
  constructor
  · rintro ⟨gt, other, extracted, found, agree⟩
    obtain rfl := Option.some.inj (truth.symm.trans extracted)
    obtain rfl := Except.ok.inj (gold.symm.trans found)
    exact agree
  · intro agree
    exact ⟨_, _, truth, gold, agree⟩

theorem Shaped.agree_cases (shaped : Shaped text) (recorded : Recorded s answer) : Agree text s ↔
    FirstShows text (lastInteger text) ∨ (answer ≠ lastInteger text ∧ ¬ FirstShows text answer) := by
  obtain ⟨_, nonneg, below⟩ := recorded.solution
  obtain ⟨_, lastNonneg, lastSmall⟩ := shaped.lastAnswer
  rw [shaped.agree_iff recorded]
  constructor
  · intro agree
    by_cases same : answer = lastInteger text
    · exact .inl (same ▸ agree.mp same)
    · exact .inr ⟨same, fun shows => same (agree.mpr shows)⟩
  · rintro (last | ⟨differs, unread⟩)
    · exact ⟨fun same => same ▸ last, fun shows =>
        shaped.shows_unique nonneg below lastNonneg lastSmall shows last⟩
    · exact iff_of_false differs unread

end Agree

def greatestIntegers : Prog.Machine random Unit where
  answer _
    | .randint _ high .. => high
    | .choice .. => (0 : Nat)
    | .sample _ count _ => List.range count
    | .shuffle size => List.range size
    | .seed _ => ()
  next _ _ := ()
  admitted
    | _, .randint _ _ nonempty => ⟨nonempty, Int.le_refl _⟩
    | _, .choice _ nonempty => nonempty
    | _, .sample _ _ enough => ⟨List.length_range, List.nodup_range, fun _ member =>
        Nat.lt_of_lt_of_le (List.mem_range.mp member) enough⟩
    | _, .shuffle _ => List.Perm.refl _
    | _, .seed _ => trivial

theorem greatest_answers : ∀ n ∈ List.range 23, leadsTo greatestIntegers () (generateChain 1 (12 * n % 23 + 24) 23)
    (fun data => decide (data.values.getLast? = some (n : Int))) = true := by
  decide +kernel

theorem exists_recorded {answer : Int} (nonneg : 0 ≤ answer) (small : answer ≤ 22) : ∃ s, Recorded s answer := by
  obtain ⟨n, rfl⟩ := Int.eq_ofNat_of_zero_le nonneg
  obtain ⟨data, returned, last⟩ := returns_of_leadsTo (greatest_answers n (List.mem_range.mpr (by omega)))
  obtain ⟨s, rendered⟩ := exists_returns ((generateChain_returns returned).render .normalforward trivial).1
  exact ⟨s, 1, _, data, .normalforward, by decide, returned, rendered, of_decide_eq_true last⟩

def repeated : Text := lit "Answer: 5.\nThat is, Answer: 5."

theorem repeated_behind :
    behindMarkers (sensitive answerMarker) repeated = [lit " 5.\nThat is, Answer: 5.", lit " 5."] := by
  decide +kernel

theorem repeated_shaped : Shaped repeated where
  untagged := by decide +kernel
  marked := by decide +kernel
  exactly := by decide +kernel
  numbered := by
    rw [repeated_behind]
    simp only [List.forall_mem_cons]
    exact ⟨⟨lit "5", lit "\nThat is, Answer: 5.", by decide +kernel⟩, ⟨lit "5", [], by decide +kernel⟩, by simp⟩

theorem repeated_shows : FirstShows repeated (lastInteger repeated) := by
  have last : lastInteger repeated = 5 := by decide +kernel
  have closed : Text.Runs closers ['.'] :=
    ⟨['.'], [], rfl, by simp, [], ['.'], rfl, by decide, Text.runs_nil _⟩
  let five : Numeral := ⟨[], ['5'], [], [], ['.'], .inl rfl, by decide, by decide, .inl ⟨rfl, rfl⟩, closed⟩
  have line : ['5', '.'] = firstLine repeated := by decide +kernel
  have digit : Text.natOf ['5'] = 5 := by decide
  have value : five.value = ((5 : Int) : ℚ) := by simp [five, Numeral.value, digit]
  refine ⟨five, line, ?_⟩
  rw [value, last]
  exact near64_self (by decide) (by decide)

def corrected : Text := lit "Answer: 5. Answer: 2."

theorem corrected_shaped : Shaped corrected where
  untagged := by decide +kernel
  marked := by decide +kernel
  exactly := by decide +kernel
  numbered := by
    have behind : behindMarkers (sensitive answerMarker) corrected = [lit " 5. Answer: 2.", lit " 2."] := by
      decide +kernel
    rw [behind]
    simp only [List.forall_mem_cons]
    exact ⟨⟨lit "5", lit " Answer: 2.", by decide +kernel⟩, ⟨lit "2", [], by decide +kernel⟩, by simp⟩

end CotCompression
