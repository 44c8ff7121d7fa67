import CotCompression.Generator.Chain

set_option autoImplicit false

namespace CotCompression

open Program (Prog)
open Text (lit decimal)

namespace ChainData

def sentences (data : ChainData) : List Text :=
  literalSentence (data.name 0) (data.value 0) ::
    (List.range data.ops.length).map fun index =>
      operationSentence (data.name (index + 1)) (data.name index) (data.op index) (data.const index)

end ChainData

/-- What generate_chain's dict always satisfies, whatever was drawn. -/
structure Generated (op mod : Int) (data : ChainData) : Prop where
  op_nonneg : 0 ≤ op
  op_le : op ≤ 199
  length : (data.ops.length : Int) = op
  sized : data.Sized
  first_nonneg : 0 ≤ data.value 0
  constants_pos : ∀ index < data.ops.length, 1 ≤ data.const index
  computed : ∀ index < data.ops.length,
    pyMod ((data.op index).apply (data.value index) (data.const index)) mod =
      .ok (data.value (index + 1))
  names_mem : ∀ name ∈ data.chainNames, name ∈ nodeNames
  names_nodup : data.chainNames.Nodup
  problem : ∃ noise : List (Text × Int), (data.chainNames ++ noise.map Prod.fst).Nodup ∧
    (∀ entry ∈ noise, entry.1 ∈ nodeNames ∧ 0 ≤ entry.2) ∧
    ∃ sentences : List Text,
      sentences.Perm (data.sentences ++ noise.map fun entry => literalSentence entry.1 entry.2) ∧
        data.problemText = Text.join (lit ". ") sentences ++ lit "."
  question : data.questionText =
    lit "What is the number of " ++ data.name data.ops.length ++ lit "?"

theorem chainSentences_length {names : List Text} {values constants : List Int} {ops : List Op}
    {op : Int} {sentences : List Text}
    (made : chainSentences names values constants ops op = .ok sentences) :
    op.toNat + 1 ≤ names.length := by
  unfold chainSentences at made
  obtain ⟨_, first, made⟩ := bind_eq_ok.mp made
  obtain ⟨_, _, made⟩ := bind_eq_ok.mp made
  obtain ⟨_, rest, _⟩ := bind_eq_ok.mp made
  by_contra short
  rcases Nat.eq_zero_or_pos op.toNat with none | some
  · rw [item_error (by omega)] at first
    cases first
  · -- the last index already asks for a name that is not there
    have inside : op.toNat - 1 ∈ List.range op.toNat := List.mem_range.mpr (by omega)
    have fails : ∃ error, chainSentence names constants ops (op.toNat - 1) = .error error := by
      unfold chainSentence
      cases item ops (op.toNat - 1) with
      | error error => exact ⟨error, rfl⟩
      | ok o => exact ⟨.indexError, by rw [ok_bind, item_error (by omega), error_bind]⟩
    obtain ⟨error, fails⟩ := fails
    obtain ⟨other, raised⟩ := mapM_error inside fails
    rw [raised] at rest
    cases rest

theorem chainSentences_ok {names : List Text} {values constants : List Int} {ops : List Op} {op : Int}
    (namesLength : op.toNat + 1 ≤ names.length) (valuesLength : 0 < values.length)
    (constantsLength : op.toNat ≤ constants.length) (opsLength : op.toNat ≤ ops.length) :
    chainSentences names values constants ops op =
      .ok (literalSentence (names.getD 0 []) (values.getD 0 0) ::
        (List.range op.toNat).map fun index =>
          operationSentence (names.getD (index + 1) []) (names.getD index []) (ops.getD index .add)
            (constants.getD index 0)) := by
  unfold chainSentences
  rw [item_ok [] (by omega), item_ok 0 valuesLength, ok_bind, ok_bind, mapM_ok]
  · rfl
  · intro index member
    have within := List.mem_range.mp member
    rw [chainSentence, item_ok .add (by omega), item_ok [] (by omega), item_ok [] (by omega),
      item_ok 0 (by omega)]
    rfl

theorem noiseSentences_returns {numberRange : Int} {names sentences : List Text}
    (returned : (noiseSentences numberRange names).Returns sentences) :
    ∃ noise : List (Text × Int), noise.map Prod.fst = names ∧ (∀ entry ∈ noise, 0 ≤ entry.2) ∧
      sentences = noise.map fun entry => literalSentence entry.1 entry.2 := by
  induction names generalizing sentences with
  | nil =>
    obtain rfl := (Prog.returns_pure _ _).mp returned
    exact ⟨[], rfl, by simp, rfl⟩
  | cons name names ih =>
    simp only [noiseSentences, Prog.returns_bind, Prog.returns_pure] at returned
    obtain ⟨value, drawn, rest, later, rfl⟩ := returned
    obtain ⟨noise, rfl, nonneg, rfl⟩ := ih later
    have low := (returns_randint.mp drawn).1
    refine ⟨(name, value) :: noise, rfl, ?_, rfl⟩
    intro entry member
    rcases List.mem_cons.mp member with rfl | member
    · show 0 ≤ value
      omega
    · exact nonneg entry member

theorem noiseSentences_safe {numberRange : Int} (range : 2 ≤ numberRange) (names : List Text) :
    (noiseSentences numberRange names).Safe := by
  induction names with
  | nil =>
    intro error raised
    exact (Prog.raises_pure _ _).mp raised
  | cons name names ih =>
    intro error raised
    simp only [noiseSentences, Prog.raises_bind, Prog.raises_pure, and_false, exists_false,
      false_or] at raised
    rcases raised with ⟨_, _, raised⟩ | raised
    · exact ih error raised
    · have := (raises_randint.mp raised).1
      omega

theorem sample_names {op drawn : Int} {selected : List Text} (least : 1 ≤ drawn)
    (most : drawn ≤ max 2 op)
    (returned : (sample nodeNames (op + 1 + clampNoise op drawn)).Returns selected) :
    selected.Nodup ∧ (∀ name ∈ selected, name ∈ nodeNames) ∧ selected.length ≤ 200 ∧
      (op < 0 → sliceTo selected (op + 1) = []) ∧
      (0 ≤ op → op + 1 ≤ selected.length ∨ 200 < op + 1) := by
  obtain ⟨length, subset, distinct⟩ := returns_sample returned
  simp only [clampNoise, nodeNames_length] at length
  refine ⟨distinct nodeNames_nodup, subset, ?_, ?_, ?_⟩
  · split at length <;> omega
  · intro negative
    rw [if_neg (by omega)] at length
    simp only [sliceTo, sliceIndex, List.take_eq_nil_iff]
    left
    split <;> omega
  · intro nonneg
    split at length <;> omega

theorem chainData_sentences {names : List Text} {first : Int} {steps : List Step} {op : Int}
    {problemText questionText : Text} (count : steps.length = op.toNat) :
    ChainData.sentences ⟨names, first :: steps.map Step.value, steps.map Step.const,
        steps.map Step.op, problemText, questionText⟩ =
      literalSentence (names.getD 0 []) ((first :: steps.map Step.value).getD 0 0) ::
        (List.range op.toNat).map fun index =>
          operationSentence (names.getD (index + 1) []) (names.getD index [])
            ((steps.map Step.op).getD index .add) ((steps.map Step.const).getD index 0) := by
  simp only [ChainData.sentences, List.length_map, count]
  rfl

theorem Generated.follows {op mod : Int} {data : ChainData} (generated : Generated op mod data)
    (positive : 1 ≤ mod) : data.Follows mod where
  toSized := generated.sized
  first_nonneg := generated.first_nonneg
  constants_pos := generated.constants_pos
  step index within := by
    have computed := generated.computed index within
    rw [pyMod_ok positive] at computed
    exact (Except.ok.inj computed).symm

theorem Generated.divides {op mod : Int} {data : ChainData} (generated : Generated op mod data)
    (zero : mod = 0) : data.ops.length = 0 := by
  by_contra some
  have computed := generated.computed 0 (by omega)
  rw [pyMod, if_pos zero] at computed
  cases computed

theorem generateChain_returns {op numberRange mod : Int} {data : ChainData}
    (returned : (generateChain op numberRange mod).Returns data) : Generated op mod data := by
  simp only [generateChain, Prog.returns_bind, Prog.returns_pure, Prog.returns_ofExcept] at returned
  obtain ⟨drawn, drew, selected, sampled, first, firstDrawn, steps, stepped, chain, made, noiseTexts,
    noised, sentences, shuffled, lastName, lastFound, rfl⟩ := returned
  obtain ⟨least, most⟩ := returns_randint.mp drew
  obtain ⟨distinct, known, small, negative, enough⟩ := sample_names least most sampled
  have firstLow := (returns_randint.mp firstDrawn).1
  obtain ⟨count, from_⟩ := chainSteps_returns stepped
  have long := chainSentences_length made
  have nonneg : 0 ≤ op := by
    by_contra below
    rw [negative (by omega)] at long
    simp at long
  have slice : sliceIndex selected.length (op + 1) = op.toNat + 1 := by
    simp only [sliceIndex]
    split <;> omega
  have fits : op.toNat + 1 ≤ selected.length := by
    simp only [sliceTo, slice, List.length_take] at long
    omega
  have namesLength : (sliceTo selected (op + 1)).length = op.toNat + 1 := by
    simp only [sliceTo, slice, List.length_take]
    omega
  have parts : sliceTo selected (op + 1) ++ sliceFrom selected (op + 1) = selected := by
    simp only [sliceTo, sliceFrom, slice, List.take_append_drop]
  rw [chainSentences_ok (by omega) (by simp) (by simp [count]) (by simp [count])] at made
  obtain rfl := Except.ok.inj made
  obtain ⟨noise, noiseNames, noiseNonneg, rfl⟩ := noiseSentences_returns noised
  have lastIs : lastName = (sliceTo selected (op + 1)).getD steps.length [] := by
    have filled : sliceTo selected (op + 1) ≠ [] := by
      intro empty
      rw [empty] at namesLength
      simp at namesLength
    rw [lastItem_ok [] filled] at lastFound
    rw [← Except.ok.inj lastFound, count, List.getLastD_eq_getLast?, List.getLast?_eq_getElem?,
      namesLength, List.getD_eq_getElem?_getD, Nat.add_sub_cancel]
  refine ⟨nonneg, by omega, by simp only [List.length_map, count]; omega,
    ⟨by simp [namesLength, count], by simp, by simp⟩, (by omega : 0 ≤ first),
    fun index within => (from_.step index (by simpa using within)).1,
    fun index within => (from_.step index (by simpa using within)).2, ?_, ?_, ?_, ?_⟩
  · intro name member
    exact known name (List.mem_of_mem_take member)
  · exact distinct.sublist (List.take_sublist _ _)
  · refine ⟨noise, by rw [noiseNames, parts]; exact distinct, ?_, sentences, ?_, rfl⟩
    · intro entry member
      have named : entry.1 ∈ sliceFrom selected (op + 1) :=
        noiseNames ▸ List.mem_map_of_mem member
      exact ⟨known _ (List.mem_of_mem_drop named), noiseNonneg entry member⟩
    · rw [chainData_sentences count]
      exact perm_of_returns_shuffle shuffled
  · simp only [ChainData.name, List.length_map, lastIs]

theorem generateChain_safe {op numberRange mod : Int} (nonneg : 0 ≤ op) (small : op ≤ 199)
    (range : 3 ≤ numberRange) (positive : 1 ≤ mod) : (generateChain op numberRange mod).Safe := by
  intro error raised
  simp only [generateChain, Prog.raises_bind, Prog.raises_pure, Prog.raises_ofExcept, and_false,
    exists_false, false_or] at raised
  rcases raised with ⟨drawn, drew, raised⟩ | raised
  · obtain ⟨least, most⟩ := returns_randint.mp drew
    rcases raised with ⟨selected, sampled, raised⟩ | raised
    · obtain ⟨_, _, length, _, enough⟩ := sample_names least most sampled
      have fits := enough nonneg
      have slice : (sliceTo selected (op + 1)).length = op.toNat + 1 := by
        simp only [sliceTo, sliceIndex, List.length_take]
        split <;> omega
      rcases raised with ⟨first, _, raised⟩ | raised
      · rcases raised with ⟨steps, stepped, raised⟩ | raised
        · obtain ⟨count, _⟩ := chainSteps_returns stepped
          rw [chainSentences_ok (by omega) (by simp) (by simp [count]) (by simp [count])] at raised
          rcases raised with ⟨chain, _, raised⟩ | raised
          · rcases raised with ⟨noise, _, raised⟩ | raised
            · rcases raised with ⟨sentences, _, raised⟩ | raised
              · have filled : sliceTo selected (op + 1) ≠ [] := by
                  intro empty
                  rw [empty] at slice
                  simp at slice
                rw [lastItem_ok [] filled] at raised
                cases raised
              · exact safe_shuffle _ error raised
            · exact noiseSentences_safe (by omega) _ error raised
          · cases raised
        · exact chainSteps_safe range positive error raised
      · have := (raises_randint.mp raised).1
        omega
    · have outside := raises_sample raised
      simp only [clampNoise, nodeNames_length] at outside
      split at outside <;> omega
  · have := (raises_randint.mp raised).1
    omega

theorem generateChain_range {op numberRange mod : Int} {data : ChainData}
    (returned : (generateChain op numberRange mod).Returns data) : 2 ≤ numberRange := by
  simp only [generateChain, Prog.returns_bind] at returned
  obtain ⟨_, _, _, _, first, drawn, _⟩ := returned
  have within := returns_randint.mp drawn
  omega

theorem generateChain_possible {op numberRange mod : Int} (nonneg : 0 ≤ op) (small : op ≤ 199)
    (range : 2 ≤ numberRange) (divides : mod = 0 → op = 0) :
    ∃ data, (generateChain op numberRange mod).Returns data := by
  obtain ⟨count, rfl⟩ := Int.eq_ofNat_of_zero_le nonneg
  obtain ⟨noiseCount, enough, clamped⟩ : ∃ noiseCount : Nat, count + 1 + noiseCount ≤ nodeNames.length ∧
      clampNoise count 1 = noiseCount := by
    rw [clampNoise, nodeNames_length]
    split
    · exact ⟨199 - count, by omega, by omega⟩
    · exact ⟨1, by omega, rfl⟩
  have sampled := sample_returns_some nodeNames (count + 1 + noiseCount) enough
  generalize picked : nodeNames.take (count + 1 + noiseCount) = selected at sampled
  have length : selected.length = count + 1 + noiseCount := by
    rw [← picked, List.length_take, Nat.min_eq_left enough]
  have named : (sliceTo selected (count + 1 : Int)).length = count + 1 := by
    simp only [sliceTo, sliceIndex, List.length_take]
    split <;> omega
  obtain ⟨steps, stepped⟩ := @chainSteps_possible numberRange mod 1 count range
    (fun zero => by have := divides zero; omega)
  obtain ⟨counted, _⟩ := chainSteps_returns stepped
  obtain ⟨noise, noised⟩ := exists_returns (noiseSentences_safe range (sliceFrom selected (count + 1 : Int)))
  have chain := @chainSentences_ok (sliceTo selected (count + 1 : Int)) (1 :: steps.map Step.value)
    (steps.map Step.const) (steps.map Step.op) count (by omega) (by simp) (by simp [counted])
    (by simp [counted])
  have last := @lastItem_ok Text (sliceTo selected (count + 1 : Int)) [] fun empty => by
    rw [empty] at named
    simp at named
  simp only [generateChain, Prog.returns_bind, Prog.returns_ofExcept, Prog.returns_pure]
  refine ⟨_, 1, returns_randint.mpr ⟨le_rfl, by omega⟩, selected, ?_, 1,
    returns_randint.mpr ⟨le_rfl, by omega⟩, steps, stepped, _, chain, noise, noised, _,
    returns_shuffle_self _, _, last, rfl⟩
  rw [clamped]
  exact_mod_cast sampled

end CotCompression
