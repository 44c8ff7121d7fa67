import CotCompression.Generator.Outcome

set_option autoImplicit false

namespace CotCompression

open Program (Prog)
open Text (lit decimal)

/-- What one sentence of a problem says about a name, to a reader with nothing but the text. -/
inductive Fact where
  | literal (value : Int)
  | operation (reference : Text) (o : Op) (c : Int)
  deriving DecidableEq

def problemSentences (problem : Text) : List Text := Text.split (lit ". ") problem.dropLast

def readNumber (t : Text) : Option Int :=
  if t ≠ [] ∧ ∀ c ∈ t, c.isDigit = true then some (Text.natOf t) else none

def readWord (t : Text) : Option Op :=
  if t = lit "plus" then some .add
  else if t = lit "minus" then some .sub
  else if t = lit "times" then some .mul
  else none

def readSentence (sentence : Text) : Option (Text × Fact) :=
  match Text.split (lit " ") sentence with
  | [a, b, c, name, d, value] =>
      if [a, b, c, d] = [lit "The", lit "number", lit "of", lit "equals"] then
        (readNumber value).map fun v => (name, .literal v)
      else none
  | [a, b, c, name, d, e, f, g, reference, word, const] =>
      if [a, b, c, d, e, f, g] =
          [lit "The", lit "number", lit "of", lit "equals", lit "the", lit "number", lit "of"] then do
        let o ← readWord word
        let c ← readNumber const
        return (name, .operation reference o c)
      else none
  | _ => none

def readProblem (problem : Text) : Option (List (Text × Fact)) :=
  (problemSentences problem).mapM readSentence

def askedName (question : Text) : Option Text :=
  match Text.split (lit " ") question with
  | [a, b, c, d, e, name] =>
      if [a, b, c, d, e] = [lit "What", lit "is", lit "the", lit "number", lit "of"] then
        some name.dropLast
      else none
  | _ => none

def Fact.mentions : Fact → List Text
  | .literal _ => []
  | .operation reference _ _ => [reference]

-- Follow the references, at most `fuel` of them.
def solve (facts : List (Text × Fact)) (mod : Int) : Nat → Text → Option Int
  | 0, _ => none
  | fuel + 1, name => do
    let (_, fact) ← facts.find? fun entry => entry.1 == name
    match fact with
    | .literal value => return value
    | .operation reference o c => do
      let x ← solve facts mod fuel reference
      return o.apply x c % mod

theorem lower_clear {name : Text} (lower : ∀ c ∈ name, c.isLower = true) :
    '.' ∉ name ∧ ' ' ∉ name ∧ '?' ∉ name :=
  ⟨fun h => absurd (lower _ h) (by decide), fun h => absurd (lower _ h) (by decide),
    fun h => absurd (lower _ h) (by decide)⟩

theorem decimal_clear (z : Int) : '.' ∉ decimal z ∧ ' ' ∉ decimal z := by
  have each : ∀ c ∈ decimal z, c ≠ '.' ∧ c ≠ ' ' :=
    Text.forall_decimal (by decide) (by decide) z
  exact ⟨fun h => (each _ h).1 rfl, fun h => (each _ h).2 rfl⟩

theorem word_clear (o : Op) : '.' ∉ o.word ∧ ' ' ∉ o.word := by cases o <;> decide

theorem literalSentence_words {name : Text} (lower : ∀ c ∈ name, c.isLower = true) (value : Int) :
    Text.split (lit " ") (literalSentence name value) =
      [lit "The", lit "number", lit "of", name, lit "equals", decimal value] := by
  have joined : literalSentence name value =
      Text.join (lit " ") [lit "The", lit "number", lit "of", name, lit "equals", decimal value] := by
    simp [literalSentence, lit]
  rw [joined]
  refine Text.split_join (by simp) ?_
  simp only [List.forall_mem_cons]
  exact ⟨by decide, by decide, by decide, (lower_clear lower).2.1, by decide, (decimal_clear value).2,
    by simp⟩

theorem operationSentence_words {name reference : Text} (lower : ∀ c ∈ name, c.isLower = true)
    (referenceLower : ∀ c ∈ reference, c.isLower = true) (o : Op) (c : Int) :
    Text.split (lit " ") (operationSentence name reference o c) =
      [lit "The", lit "number", lit "of", name, lit "equals", lit "the", lit "number", lit "of",
        reference, o.word, decimal c] := by
  have joined : operationSentence name reference o c =
      Text.join (lit " ") [lit "The", lit "number", lit "of", name, lit "equals", lit "the",
        lit "number", lit "of", reference, o.word, decimal c] := by
    simp [operationSentence, lit]
  rw [joined]
  refine Text.split_join (by simp) ?_
  simp only [List.forall_mem_cons]
  exact ⟨by decide, by decide, by decide, (lower_clear lower).2.1, by decide, by decide, by decide,
    by decide, (lower_clear referenceLower).2.1, (word_clear o).2, (decimal_clear c).2, by simp⟩

theorem readNumber_decimal {z : Int} (nonneg : 0 ≤ z) : readNumber (decimal z) = some z := by
  rw [Text.decimal_nonneg nonneg, readNumber,
    if_pos ⟨Nat.toDigits_ne_nil, Text.forall_toDigits (by decide) _⟩, Text.natOf_toDigits,
    Int.toNat_of_nonneg nonneg]

theorem readWord_word (o : Op) : readWord o.word = some o := by cases o <;> decide

def Means (sentence : Text) (entry : Text × Fact) : Prop :=
  '.' ∉ sentence ∧ readSentence sentence = some entry

theorem means_literal {name : Text} (lower : ∀ c ∈ name, c.isLower = true) {value : Int}
    (nonneg : 0 ≤ value) : Means (literalSentence name value) (name, .literal value) := by
  constructor
  · simp only [literalSentence, List.mem_append, not_or]
    exact ⟨⟨⟨by decide, (lower_clear lower).1⟩, by decide⟩, (decimal_clear _).1⟩
  · rw [readSentence, literalSentence_words lower]
    simp [readNumber_decimal nonneg]

theorem means_operation {name reference : Text} (lower : ∀ c ∈ name, c.isLower = true)
    (referenceLower : ∀ c ∈ reference, c.isLower = true) (o : Op) {c : Int} (nonneg : 0 ≤ c) :
    Means (operationSentence name reference o c) (name, .operation reference o c) := by
  constructor
  · simp only [operationSentence, List.mem_append, not_or]
    exact ⟨⟨⟨⟨⟨⟨⟨by decide, (lower_clear lower).1⟩, by decide⟩, (lower_clear referenceLower).1⟩,
      by decide⟩, (word_clear _).1⟩, by decide⟩, (decimal_clear _).1⟩
  · rw [readSentence, operationSentence_words lower referenceLower]
    simp [readNumber_decimal nonneg, readWord_word]

theorem readProblem_means {sentences : List Text} {facts : List (Text × Fact)}
    (meant : List.Forall₂ Means sentences facts) (filled : sentences ≠ []) :
    readProblem (Text.join (lit ". ") sentences ++ lit ".") = some facts := by
  have clear : ∀ sentence ∈ sentences, '.' ∉ sentence := by
    intro sentence member
    obtain ⟨index, within, rfl⟩ := List.getElem_of_mem member
    exact (meant.get within (meant.length_eq ▸ within)).1
  have split : problemSentences (Text.join (lit ". ") sentences ++ lit ".") = sentences := by
    rw [problemSentences]
    exact (congrArg _ List.dropLast_concat).trans (Text.split_join filled clear)
  rw [readProblem, split]
  clear split clear filled
  induction meant with
  | nil => rfl
  | cons here _ ih =>
    rw [List.mapM_cons, here.2, ih]
    rfl

theorem askedName_question {name : Text} (lower : ∀ c ∈ name, c.isLower = true) :
    askedName (lit "What is the number of " ++ name ++ lit "?") = some name := by
  have joined : lit "What is the number of " ++ name ++ lit "?" =
      Text.join (lit " ") [lit "What", lit "is", lit "the", lit "number", lit "of", name ++ lit "?"] := by
    simp [lit]
  have clear : ' ' ∉ name ++ lit "?" := by
    rw [List.mem_append]
    rintro (inside | inside)
    · exact (lower_clear lower).2.1 inside
    · exact absurd inside (by decide)
  have words : Text.split (lit " ") (lit "What is the number of " ++ name ++ lit "?") =
      [lit "What", lit "is", lit "the", lit "number", lit "of", name ++ lit "?"] := by
    rw [joined]
    refine Text.split_join (by simp) ?_
    simp only [List.forall_mem_cons]
    exact ⟨by decide, by decide, by decide, by decide, by decide, clear, by simp⟩
  rw [askedName, words]
  simp [lit]

theorem find_of_mem {facts : List (Text × Fact)} {name : Text} {fact : Fact}
    (distinct : (facts.map Prod.fst).Nodup) (member : (name, fact) ∈ facts) :
    (facts.find? fun entry => entry.1 == name) = some (name, fact) := by
  obtain ⟨entry, found⟩ : ∃ entry, (facts.find? fun entry => entry.1 == name) = some entry :=
    Option.isSome_iff_exists.mp (List.find?_isSome.mpr ⟨_, member, by simp⟩)
  have same : entry.1 = name := by simpa using List.find?_some found
  rw [found, List.inj_on_of_nodup_map distinct (List.mem_of_find?_eq_some found) member same]

namespace ChainData

def facts (data : ChainData) : List (Text × Fact) :=
  (data.name 0, .literal (data.value 0)) ::
    (List.range data.ops.length).map fun index =>
      (data.name (index + 1), .operation (data.name index) (data.op index) (data.const index))

theorem facts_names {data : ChainData} (sized : data.Sized) :
    data.facts.map Prod.fst = data.chainNames := by
  apply List.ext_getElem
  · simp [facts, sized.names]
  · intro index left right
    rcases index with _ | index
    · simp [facts, name, right]
    · simp [facts, name, right]

theorem name_mem {data : ChainData} (sized : data.Sized) {index : Nat}
    (within : index ≤ data.ops.length) : data.name index ∈ data.chainNames := by
  have inside : index < data.chainNames.length := by rw [sized.names]; omega
  simp [name, inside]

end ChainData

theorem Generated.name_lower {op mod : Int} {data : ChainData} (generated : Generated op mod data)
    {index : Nat} (within : index ≤ data.ops.length) : ∀ c ∈ data.name index, c.isLower = true :=
  (nodeNames_lower _ (generated.names_mem _ (ChainData.name_mem generated.sized within))).2

theorem Generated.sentences_mean {op mod : Int} {data : ChainData} (generated : Generated op mod data) :
    List.Forall₂ Means data.sentences data.facts := by
  refine .cons (means_literal (generated.name_lower (by omega)) generated.first_nonneg) ?_
  refine List.forall₂_map_left_iff.mpr (List.forall₂_map_right_iff.mpr
    (List.forall₂_same.mpr fun index inside => ?_))
  have within := List.mem_range.mp inside
  have low := generated.constants_pos index within
  exact means_operation (generated.name_lower (by omega)) (generated.name_lower (by omega)) _ (by omega)

theorem readProblem_generated {op mod : Int} {data : ChainData} (generated : Generated op mod data) :
    ∃ facts noise : List (Text × Fact), readProblem data.problemText = some facts ∧
      facts.Perm (data.facts ++ noise) ∧ (facts.map Prod.fst).Nodup ∧
      ∀ entry ∈ noise, ∃ value, entry.2 = .literal value := by
  obtain ⟨noise, distinct, known, sentences, perm, problem⟩ := generated.problem
  let noiseFacts := noise.map fun entry => (entry.1, Fact.literal entry.2)
  have noiseMeans : List.Forall₂ Means (noise.map fun entry => literalSentence entry.1 entry.2) noiseFacts := by
    refine List.forall₂_map_left_iff.mpr (List.forall₂_map_right_iff.mpr
      (List.forall₂_same.mpr fun entry member => ?_))
    exact means_literal (nodeNames_lower _ (known entry member).1).2 (known entry member).2
  -- the facts stand in the order of the sentences
  obtain ⟨facts, meant, reordered⟩ :=
    List.perm_comp_forall₂ perm (List.rel_append generated.sentences_mean noiseMeans)
  have filled : sentences ≠ [] := by
    rintro rfl
    have none := perm.symm.eq_nil
    simp [ChainData.sentences] at none
  refine ⟨facts, noiseFacts, by rw [problem, readProblem_means meant filled], reordered, ?_, ?_⟩
  · rw [(reordered.map Prod.fst).nodup_iff, List.map_append, ChainData.facts_names generated.sized]
    simpa [noiseFacts, List.map_map, Function.comp_def] using distinct
  · intro entry member
    obtain ⟨noiseEntry, _, rfl⟩ := List.mem_map.mp member
    exact ⟨_, rfl⟩

-- Node by node along the chain, each step spends one unit of fuel.
theorem solve_chain {facts : List (Text × Fact)} {mod : Int} {data : ChainData}
    (follows : data.Follows mod) (distinct : (facts.map Prod.fst).Nodup) (known : data.facts ⊆ facts)
    (index : Nat) (within : index ≤ data.ops.length) (fuel : Nat) (enough : index < fuel) :
    solve facts mod fuel (data.name index) = some (data.value index) := by
  induction index generalizing fuel with
  | zero =>
    obtain ⟨fuel, rfl⟩ := Nat.exists_eq_add_of_lt enough
    have member : (data.name 0, Fact.literal (data.value 0)) ∈ facts := known (by simp [ChainData.facts])
    simp [solve, find_of_mem distinct member]
  | succ index ih =>
    obtain ⟨fuel, rfl⟩ := Nat.exists_eq_add_of_lt enough
    have inside : index ∈ List.range data.ops.length := List.mem_range.mpr (by omega)
    have member : (data.name (index + 1),
        Fact.operation (data.name index) (data.op index) (data.const index)) ∈ facts :=
      known (List.mem_cons_of_mem _ (List.mem_map.mpr ⟨index, inside, rfl⟩))
    have step := follows.step index (by omega)
    simp [solve, find_of_mem distinct member, ih (by omega) (index + 1 + fuel) (by omega), step]

-- Each name mentioned is defined by one sentence, and following the sentences from the name
-- asked for ends in the recorded answer.
theorem problem_determines_answer {op numberRange mod : Int} {data : ChainData} (positive : 1 ≤ mod)
    (returned : (generateChain op numberRange mod).Returns data) :
    ∃ facts name, readProblem data.problemText = some facts ∧
      askedName data.questionText = some name ∧
      (∀ mentioned ∈ name :: facts.flatMap (fun entry => entry.1 :: entry.2.mentions),
        (facts.map Prod.fst).count mentioned = 1) ∧
      ∀ fuel : Nat, op < fuel → solve facts mod fuel name = data.values.getLast? := by
  have generated := generateChain_returns returned
  have follows := generated.follows positive
  have length := generated.length
  obtain ⟨facts, noise, read, perm, distinct, literal⟩ := readProblem_generated generated
  have chain : data.facts ⊆ facts := fun entry member =>
    perm.mem_iff.mpr (List.mem_append_left _ member)
  have defined (index : Nat) (within : index ≤ data.ops.length) :
      data.name index ∈ facts.map Prod.fst := by
    have member := ChainData.name_mem follows.toSized within
    rw [← ChainData.facts_names follows.toSized] at member
    exact List.map_subset _ chain member
  refine ⟨facts, data.name data.ops.length, read, ?_, ?_, ?_⟩
  · rw [generated.question]
    exact askedName_question (generated.name_lower le_rfl)
  · intro mentioned member
    refine List.count_eq_one_of_mem distinct ?_
    rcases List.mem_cons.mp member with rfl | member
    · exact defined _ le_rfl
    · obtain ⟨entry, inside, member⟩ := List.mem_flatMap.mp member
      rcases List.mem_cons.mp member with rfl | member
      · exact List.mem_map_of_mem inside
      · rcases List.mem_append.mp (perm.mem_iff.mp inside) with chainEntry | noiseEntry
        · rcases List.mem_cons.mp chainEntry with rfl | chainEntry
          · simp [Fact.mentions] at member
          · obtain ⟨index, within, rfl⟩ := List.mem_map.mp chainEntry
            obtain rfl : mentioned = data.name index := by simpa [Fact.mentions] using member
            exact defined index (by have := List.mem_range.mp within; omega)
        · obtain ⟨value, shape⟩ := literal entry noiseEntry
          simp [shape, Fact.mentions] at member
  · intro fuel enough
    rw [solve_chain follows distinct chain data.ops.length le_rfl fuel (by omega), List.getLast?_eq_getElem?,
      follows.values]
    have inside : data.ops.length < data.values.length := by rw [follows.values]; omega
    simp [ChainData.value, inside]

theorem problem_determines_answer_pair : ∃ data facts name, (generateChain 2 5 5).Returns data ∧
    readProblem data.problemText = some facts ∧ solve facts 5 3 name = data.values.getLast? := by
  obtain ⟨data, drawn⟩ := exists_returns (generateChain_safe (by decide : (0 : Int) ≤ 2) (by decide)
    (by decide : (3 : Int) ≤ 5) (by decide : (1 : Int) ≤ 5))
  obtain ⟨facts, name, read, _, _, solved⟩ := problem_determines_answer (by decide) drawn
  exact ⟨data, facts, name, drawn, read, solved 3 (by decide)⟩

end CotCompression
