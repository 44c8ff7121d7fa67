import CotCompression.Generator.Sample
import CotCompression.Scoring.Evaluate

set_option autoImplicit false

namespace CotCompression

open Program (Prog)
open Text (lit decimal isSpace isDecimal strip rstripDots)

def quiet (c : Char) : Prop := c ≠ ':' ∧ c ≠ '<' ∧ Text.isLineBreak c = false

instance (c : Char) : Decidable (quiet c) := inferInstanceAs (Decidable (_ ∧ _))

theorem quiet_of_plain {c : Char} (plain : isPlain c = true) : quiet c := by
  have notColon : c ≠ ':' := by
    rintro rfl
    exact absurd plain (by decide)
  have notOpen : c ≠ '<' := by
    rintro rfl
    exact absurd plain (by decide)
  refine ⟨notColon, notOpen, ?_⟩
  by_contra line
  have points : ∀ point ∈ [0x0A, 0x0B, 0x0C, 0x0D, 0x1C, 0x1D, 0x1E, 0x85, 0x2028, 0x2029],
      isPlain (Char.ofNat point) = false := by decide
  have held : Text.isLineBreak c = true := by simpa using line
  have dull := points c.toNat (List.elem_iff.mp held)
  rw [Char.ofNat_toNat, plain] at dull
  cases dull

def solutionBody (parts : List Line) : Text := Text.join (lit ". ") (parts.map Line.text)

theorem quiet_body {parts : List Line} (clear : ∀ line ∈ parts, line.Clear) :
    ∀ c ∈ solutionBody parts, quiet c := by
  refine Text.forall_join (by decide) fun part member c inside => ?_
  obtain ⟨line, known, rfl⟩ := List.mem_map.mp member
  exact quiet_of_plain ((clear line known).text c inside)

theorem solution_split {s : Text} {answer : Int} (solution : Solution s answer) :
    ∃ front, s = front ++ (answerMarker ++ (lit " " ++ (decimal answer ++ lit "."))) ∧
      (∀ c ∈ front, quiet c) ∧ '.' ∈ front := by
  obtain ⟨lines, rfl, clear⟩ := solution
  refine ⟨solutionBody lines ++ lit ". ", ?_, ?_, by simp [lit]⟩
  · have marker : lit ". Answer: " = lit ". " ++ (answerMarker ++ lit " ") := by decide
    rw [solutionText, marker]
    simp only [solutionBody, List.append_assoc]
  · exact List.forall_mem_append.mpr ⟨quiet_body clear, by decide⟩

theorem quiet_answer (answer : Int) : ∀ c ∈ lit " " ++ (decimal answer ++ lit "."), quiet c :=
  List.forall_mem_append.mpr ⟨by decide,
    List.forall_mem_append.mpr ⟨Text.forall_decimal (by decide) (by decide) answer, by decide⟩⟩

theorem forall₂_sensitive {word w : Text} :
    List.Forall₂ (fun p c => p c = true) (sensitive word) w ↔ w = word := by
  induction word generalizing w with
  | nil => simp [sensitive]
  | cons c word ih =>
    rw [sensitive, List.map_cons, List.forall₂_cons_left_iff]
    constructor
    · rintro ⟨d, rest, same, all, rfl⟩
      rw [ih.mp all, (by simpa using same : d = c)]
    · rintro rfl
      exact ⟨c, word, by simp, ih.mpr rfl, rfl⟩

theorem sensitive_to_insensitive {word w : Text}
    (all : List.Forall₂ (fun p c => p c = true) (sensitive word) w) :
    List.Forall₂ (fun p c => p c = true) (insensitive word) w := by
  obtain rfl := forall₂_sensitive.mp all
  clear all
  induction w with
  | nil => exact .nil
  | cons c w ih => exact .cons (by simp [sameLetter]) ih

theorem answer_marked (front : Text) (answer : Int) {marker : List (Char → Bool)}
    (colon : ∃ p ∈ marker, ∀ c, p c = true → c = ':')
    (matches_ : List.Forall₂ (fun p c => p c = true) marker answerMarker) :
    LastMarked marker (front ++ (answerMarker ++ (lit " " ++ (decimal answer ++ lit ".")))) (decimal answer) := by
  refine ⟨front, answerMarker, lit " ", lit ".", rfl, matches_, by decide, isInteger_decimal answer, ?_, ?_⟩
  · intro c more same
    obtain ⟨rfl, _⟩ := List.cons.inj (same.symm.trans (rfl : lit "." = ['.']))
    decide
  · intro v inside
    refine dropWord_clear colon fun member => ?_
    exact (quiet_answer answer _ (inside.subset member)).1 rfl

theorem solution_marked {s : Text} {answer : Int} (solution : Solution s answer)
    {marker : List (Char → Bool)} (colon : ∃ p ∈ marker, ∀ c, p c = true → c = ':')
    (matches_ : List.Forall₂ (fun p c => p c = true) marker answerMarker) :
    LastMarked marker s (decimal answer) := by
  obtain ⟨front, rfl, _, _⟩ := solution_split solution
  exact answer_marked front answer colon matches_

theorem extractGroundTruth_solution {s : Text} {answer : Int} (solution : Solution s answer) :
    extractGroundTruth s = some (decimal answer) :=
  ((solution_marked solution colon_sensitive (forall₂_sensitive.mpr rfl)).findall heads_sensitive).1

theorem lastAnswer_solution {s : Text} {answer : Int} (solution : Solution s answer) :
    LastAnswer s answer :=
  ⟨decimal answer, solution_marked solution colon_insensitive
    (sensitive_to_insensitive (forall₂_sensitive.mpr rfl)), Text.intOf_decimal answer⟩

theorem computeScore_solution {s : Text} {answer : Int} (solution : Solution s answer) :
    computeScore s (decimal answer) = .ok 1 := by
  rw [computeScore_lastAnswer (lastAnswer_solution solution) (pyInt_decimal answer), if_pos rfl]

theorem solid_decimal (z : Int) : ∀ c ∈ decimal z, isSpace c = false :=
  Text.forall_decimal (by decide) (by decide) z

theorem decimal_no_dot (z : Int) : '.' ∉ decimal z := fun member => by
  have clear : ∀ c ∈ decimal z, c ≠ '.' := Text.forall_decimal (by decide) (by decide) z
  exact clear _ member rfl

theorem solid_answer (answer : Int) : ∀ c ∈ decimal answer ++ lit ".", isSpace c = false :=
  List.forall_mem_append.mpr ⟨solid_decimal answer, by decide⟩

theorem rstripDots_answer (answer : Int) : rstripDots (decimal answer ++ lit ".") = decimal answer := by
  have dot : lit "." = ['.'] := rfl
  rw [dot, Text.rstripDots_dot, Text.rstripDots_of_not_mem (decimal_no_dot answer)]

theorem linePattern_first {word rest : Text} {c : Char}
    (marked : List.Forall₂ (fun p c => p c = true) (sensitive answerMarker) word)
    (line : rest.dropWhile isSpace = c :: (rest.dropWhile isSpace).tail) (starts : onLine c = true) :
    ∃ m, linePattern.first (word ++ rest) = some m ∧
      group1 m = (rest.dropWhile isSpace).takeWhile onLine := by
  have back : (Pattern.group (.plus onLine)).first (rest.dropWhile isSpace) =
      some ⟨(rest.dropWhile isSpace).takeWhile onLine, [(rest.dropWhile isSpace).takeWhile onLine],
        (rest.dropWhile isSpace).dropWhile onLine⟩ := by
    rw [line, Pattern.first_group, Pattern.first_plus, if_pos starts]
    simp [starts]
  have found := Pattern.first_word_seq (sensitive answerMarker)
    (.seq (.star isSpace) (.group (.plus onLine))) (word ++ rest)
  rw [Pattern.dropWord_append rest marked, Option.bind_some, Pattern.first_star_seq_of_some back,
    Option.map_some] at found
  exact ⟨_, found, rfl⟩

-- Only the marker's own colon can end a match.
theorem linePattern_before {front behind : Text} (noColon : ':' ∉ front) (v : Text) (filled : v ≠ [])
    (inside : v <:+ front) : linePattern.first (v ++ (answerMarker ++ behind)) = none := by
  rw [linePattern, markerPattern, Pattern.first_word_seq]
  cases dropped : Pattern.dropWord (sensitive answerMarker) (v ++ (answerMarker ++ behind)) with
  | none => rfl
  | some rest =>
    obtain ⟨word, split, all⟩ := Pattern.dropWord_split dropped
    obtain rfl := forall₂_sensitive.mp all
    have letters : answerMarker = lit "Answer" ++ [':'] := by decide
    refine absurd ?_ (Text.not_prefix_of_last (t := behind) (by decide : ':' ∉ lit "Answer")
      (fun member => noColon (inside.subset member)) filled)
    rw [← letters]
    exact ⟨rest, by rw [← split, letters]; simp⟩

theorem tagPattern_quiet {t : Text} (clear : '<' ∉ t) : tagPattern.search t = none := by
  have letter : sameLetter '<' ∈ insensitive (lit "<answer>") := List.mem_map_of_mem (by decide)
  refine Pattern.search_eq_none_of_needs (Pattern.needs_seq_left _ (Pattern.needs_word letter)) ?_
  intro c member
  by_contra same
  have is : c = '<' := sameLetter_sign (by decide) (by simpa using same)
  exact clear (is ▸ member)

theorem extractAnswer_solution {s : Text} {answer : Int} (solution : Solution s answer) :
    extractAnswer s = decimal answer := by
  obtain ⟨front, rfl, quietFront, _⟩ := solution_split solution
  have noTag : '<' ∉ front ++ (answerMarker ++ (lit " " ++ (decimal answer ++ lit "."))) := by
    intro member
    rcases List.mem_append.mp member with member | member
    · exact (quietFront _ member).2.1 rfl
    · rcases List.mem_append.mp member with member | member
      · exact absurd member (by decide)
      · exact (quiet_answer answer _ member).2.1 rfl
  have solid := solid_answer answer
  have onLines : ∀ c ∈ decimal answer ++ lit ".", onLine c = true :=
    List.forall_mem_append.mpr ⟨Text.forall_decimal (by decide) (by decide) answer, by decide⟩
  obtain ⟨c, more, shape⟩ := List.exists_cons_of_ne_nil
    (List.append_ne_nil_of_left_ne_nil (Text.decimal_ne_nil answer) (lit "."))
  have rest : (lit " " ++ (decimal answer ++ lit ".")).dropWhile isSpace = decimal answer ++ lit "." := by
    rw [shape]
    exact dropWhile_blanks (by decide) (solid c (by rw [shape]; simp))
  obtain ⟨m, found, captured⟩ := linePattern_first (forall₂_sensitive.mpr rfl)
    (by rw [rest, shape]; rfl) (onLines c (by rw [shape]; simp))
  rw [rest, List.takeWhile_eq_self_iff.mpr onLines] at captured
  have searched := Pattern.search_append found
    (linePattern_before fun member => (quietFront _ member).1 rfl)
  rw [extractAnswer, tagPattern_quiet noTag]
  simp only [searched, captured]
  rw [Text.strip_solid solid, rstripDots_answer]

theorem getGold_solution {s : Text} {answer : Int} (solution : Solution s answer) (text : Option Text) :
    getGold ⟨none, some s, text⟩ = .ok (decimal answer) := by
  obtain ⟨front, rfl, quietFront, dotted⟩ := solution_split solution
  have solid := solid_answer answer
  -- blanks before the solution are stripped, its closing stop stays
  have kept : (front.dropWhile isSpace).isEmpty = false := by
    rw [List.isEmpty_eq_false_iff, ne_eq, List.dropWhile_eq_nil_iff]
    intro blank
    exact absurd (blank _ dotted) (by decide)
  have stripped : strip (front ++ (answerMarker ++ (lit " " ++ (decimal answer ++ lit ".")))) =
      front.dropWhile isSpace ++ (answerMarker ++ (lit " " ++ (decimal answer ++ lit "."))) := by
    rw [strip, Text.lstrip, List.dropWhile_append, kept]
    have dot : lit "." = ['.'] := rfl
    have tail := Text.rstrip_of_last
      (front.dropWhile isSpace ++ (answerMarker ++ (lit " " ++ decimal answer)))
      (by decide : isSpace '.' = false)
    simpa [dot] using tail
  have clearFront : ':' ∉ front.dropWhile isSpace := fun member =>
    (quietFront _ ((List.dropWhile_suffix _).subset member)).1 rfl
  have letters : answerMarker = lit "Answer" ++ [':'] := by decide
  have split : Text.split answerMarker
      (front.dropWhile isSpace ++ (answerMarker ++ (lit " " ++ (decimal answer ++ lit ".")))) =
      [front.dropWhile isSpace, lit " " ++ (decimal answer ++ lit ".")] := by
    rw [letters, Text.split_append_of_last _ (by decide) clearFront, Text.split_of_last_not_mem]
    exact fun member => (quiet_answer answer _ member).1 rfl
  have behind : strip (lit " " ++ (decimal answer ++ lit ".")) = decimal answer ++ lit "." := by
    have blank : Text.lstrip (lit " " ++ (decimal answer ++ lit ".")) =
        Text.lstrip (decimal answer ++ lit ".") := List.dropWhile_append_of_pos (by decide)
    rw [strip, blank]
    exact Text.strip_solid solid
  have line : Text.splitlines (decimal answer ++ lit ".") = [decimal answer ++ lit "."] :=
    Text.splitlines_plain (fun c member => (quiet_answer answer c (List.mem_append_right _ member)).2.2)
      (List.append_ne_nil_of_left_ne_nil (Text.decimal_ne_nil answer) _)
  have found : answerMarker <:+:
      front.dropWhile isSpace ++ (answerMarker ++ (lit " " ++ (decimal answer ++ lit "."))) :=
    ⟨_, _, (List.append_assoc _ _ _)⟩
  have empty : strip ([] : Text) = [] := rfl
  simp only [getGold, Option.getD_none, Option.getD_some, empty, ne_eq, not_true_eq_false, if_false,
    stripped, if_pos found, split]
  simp only [lastItem, List.getLast?_cons_cons, List.getLast?_singleton, behind, line, ok_bind]
  change Except.ok (rstripDots (decimal answer ++ lit ".")) = _
  rw [rstripDots_answer]

theorem exactMatch_decimal (z : Int) : exactMatch (decimal z) (decimal z) = 1 := by
  simp only [exactMatch, matchWith, if_neg (Text.decimal_ne_nil z), parseNumeric_decimal, decide_eq_true_eq]
  simp only [if_pos (near_self _)]

def Renderer.Valid (op : Nat) : Renderer → Prop
  | .composedforward maxNest => 1 ≤ maxNest
  | .simplifiedforward maxNest => 1 ≤ maxNest
  | .implicit maxNest => 1 ≤ maxNest
  | .balanceforward => ∃ k, 1 ≤ k ∧ op = 2 ^ k
  | _ => True

theorem Renderer.Valid.accepts {op : Nat} {renderer : Renderer} (valid : renderer.Valid op) :
    renderer.Accepts op := by
  cases renderer with
  | normalforward => trivial
  | rightforward => trivial
  | composedforward maxNest =>
    have low : 1 ≤ maxNest := valid
    exact .inr (by omega)
  | simplifiedforward maxNest =>
    have low : 1 ≤ maxNest := valid
    exact .inr (by omega)
  | implicit maxNest =>
    have low : 1 ≤ maxNest := valid
    exact fun zero => by omega
  | balanceforward =>
    obtain ⟨k, exponent, power⟩ := valid
    exact power_accepted exponent power

-- What every renderer writes, every decoder reads back as the chain's last value.
theorem decoders_agree {op numberRange mod : Int} {data : ChainData} {renderer : Renderer} {s : Text}
    (drawn : (generateChain op numberRange mod).Returns data)
    (valid : renderer.Valid data.ops.length) (rendered : (renderer.run variableNames data mod).Returns s) :
    ∃ n gold, data.values.getLast? = some n ∧ extractGroundTruth s = some (decimal n) ∧
      computeScore s (decimal n) = .ok 1 ∧ getGold ⟨none, some s, none⟩ = .ok gold ∧
      gold = decimal n ∧ extractAnswer s = decimal n ∧ exactMatch (extractAnswer s) gold = 1 := by
  have generated := generateChain_returns drawn
  have solution := (generated.render _ valid.accepts).2 s rendered
  have last : data.values.getLast? = some (data.value data.ops.length) := by
    have found := generated.sized.last_value
    rw [lastItem] at found
    cases h : data.values.getLast? <;> simp_all
  have answer := extractAnswer_solution solution
  exact ⟨_, _, last, extractGroundTruth_solution solution, computeScore_solution solution,
    getGold_solution solution none, rfl, answer, by rw [answer, exactMatch_decimal]⟩

theorem decoders_agree_pair : ∃ data s, (generateChain 2 3 5).Returns data ∧
    (balanceforwardSolution variableNames data 5).Returns s ∧
      exactMatch (extractAnswer s) (extractAnswer s) = 1 := by
  obtain ⟨data, drawn⟩ := exists_returns (generateChain_safe (by decide : (0 : Int) ≤ 2) (by decide)
    (by decide : (3 : Int) ≤ 3) (by decide : (1 : Int) ≤ 5))
  have generated := generateChain_returns drawn
  have valid : Renderer.balanceforward.Valid data.ops.length :=
    ⟨1, le_rfl, by have := generated.length; omega⟩
  obtain ⟨s, rendered⟩ := exists_returns (generated.render _ valid.accepts).1
  obtain ⟨n, gold, _, _, _, _, same, answer, matched⟩ := decoders_agree drawn valid rendered
  exact ⟨data, s, drawn, rendered, by rw [same, ← answer] at matched; exact matched⟩

end CotCompression
