import CotCompression.Scoring.Decoders
import CotCompression.Worker.Quota

set_option autoImplicit false

namespace CotCompression

open Program (Prog)
open Program.Prog (iterate)
open Text (lit)

/-- What the argument parser hands over; every nargs="+" list is filled. -/
structure Args where
  force : Bool
  mod : Int
  numberRange : Int
  listoperations : List Int
  modes : List Mode
  total : Int
  numprocs : Int
  allNests : Option (List Int)
  variantTypes : List VariantType
  includeRightforward : Bool
  listoperations_filled : listoperations ≠ []
  modes_filled : modes ≠ []
  allNests_filled : allNests ≠ some []
  variantTypes_filled : variantTypes ≠ []

-- (args.total + args.numprocs - 1) // args.numprocs
def Args.numPerWorker (args : Args) : Except PyError Int :=
  pyDiv (args.total + args.numprocs - 1) args.numprocs

def sampleRecord (mode : Text) (drawn : Sample) : Record where
  problem := drawn.problem
  question := drawn.question
  solution := drawn.solution
  op := drawn.op
  id := drawn.id
  template := lit "simple_chain"
  mode := mode
  length := lit "zero_context"
  d := 1

-- mode_names
def modeNames (allNests : List Int) (variantTypes : List VariantType) (includeRightforward : Bool) :
    List Text :=
  lit "explicit" :: (variantPairs allNests variantTypes).map (fun pair => modeName pair.1 pair.2) ++
    if includeRightforward then [lit "rightforward"] else []

def variantRecord (drawn : Variants) (name : Text) : Except PyError Record := do
  let (sol, idVal) ← drawn.results.get name
  return sampleRecord name ⟨drawn.problem, drawn.question, sol, drawn.op, idVal⟩

section Loops

variable (pyHash : Text → Int) (args : Args) (numPerWorker : Int)

def workSampling (mode : Mode) : Sampling Sample where
  listoperations := args.listoperations
  numPerWorker
  tally state := state.items.map List.length
  draw op := generateSample pyHash op args.numberRange args.mod mode
  op := Sample.op
  file idx drawn state :=
    .ok { state with items := state.items.modify idx (· ++ [sampleRecord mode.text drawn]) }

def variantSampling (allNests : List Int) : Sampling Variants where
  listoperations := args.listoperations
  numPerWorker
  tally state := state.counts
  draw op :=
    generateAllVariants pyHash op args.numberRange args.mod allNests args.variantTypes args.includeRightforward
  op := Variants.op
  file idx drawn state := do
    let names := modeNames allNests args.variantTypes args.includeRightforward
    let made ← names.mapM (variantRecord drawn)
    return { state with
      items := state.items.modify idx (· ++ made)
      counts := state.counts.modify idx (· + 1) }

-- One sampling loop after seeding, given up after `rounds` passes.
def runSampling {α : Type} (loop : Sampling α) (identifier : Int) (rounds : Nat) :
    Py (Option (List (List Record))) := do
  seed identifier
  match ← iterate loop.pass rounds loop.start with
  | .inl _ => return none
  | .inr final => return some final.items

def workModes (identifier : Int) (rounds : Nat) : List Mode → Py (Option (List (List (List Record))))
  | [] => return some []
  | mode :: modes => do
    match ← runSampling (workSampling pyHash args numPerWorker mode) identifier rounds with
    | none => return none
    | some items =>
      let rest ← workModes identifier rounds modes
      return rest.map (items :: ·)

def workFunction (identifier : Int) (rounds : Nat) : Py (Option (List (List (List Record)))) :=
  match args.allNests with
  | some allNests => do
    let items ← runSampling (variantSampling pyHash args numPerWorker allNests) identifier rounds
    return items.map fun items => [items]
  | none => workModes pyHash args numPerWorker identifier rounds args.modes

end Loops

def Args.modeTexts (args : Args) : List Text :=
  match args.allNests with
  | some allNests => modeNames allNests args.variantTypes args.includeRightforward
  | none => args.modes.map Mode.text

section Draws

variable {pyHash : Text → Int} {op numberRange mod : Int}

theorem generateSample_returns {mode : Mode} {drawn : Sample} :
    (generateSample pyHash op numberRange mod mode).Returns drawn ↔
      ∃ data solution, (generateChain op numberRange mod).Returns data ∧
        (mode.renderer.run variableNames data mod).Returns solution ∧
        drawn = ⟨data.problemText, data.questionText, solution, op, stringToNumber pyHash solution⟩ := by
  simp only [generateSample, Prog.returns_bind, Prog.returns_pure]
  constructor
  · rintro ⟨data, chained, solution, rendered, same⟩
    exact ⟨data, solution, chained, rendered, same⟩
  · rintro ⟨data, solution, chained, rendered, same⟩
    exact ⟨data, chained, solution, rendered, same⟩

theorem addVariants_returns {data : ChainData} (generated : Generated op mod data)
    {pairs : List (VariantType × Int)} {results after : Results}
    (returned : (addVariants pyHash data mod pairs results).Returns after) :
    after.map Prod.fst =
        (pairs.map fun pair => modeName pair.1 pair.2).reverse ++ results.map Prod.fst ∧
      ((∀ entry ∈ results, Solution entry.2.1 (data.value data.ops.length)) →
        ∀ entry ∈ after, Solution entry.2.1 (data.value data.ops.length)) ∧
      ∀ pair ∈ pairs, (pair.1.renderer pair.2).Accepts data.ops.length := by
  induction pairs generalizing results with
  | nil =>
    obtain rfl := (Prog.returns_pure _ _).mp returned
    exact ⟨rfl, fun solved => solved, by simp⟩
  | cons pair pairs ih =>
    obtain ⟨vt, nest⟩ := pair
    simp only [addVariants, Prog.returns_bind] at returned
    obtain ⟨sol, rendered, returned⟩ := returned
    obtain ⟨keys, solved, accepted⟩ := ih returned
    refine ⟨by simp [keys], fun before => solved ?_, ?_⟩
    · rintro entry (_ | ⟨_, member⟩)
      · exact generated.rendered _ rendered
      · exact before entry member
    · rintro pair (_ | ⟨_, member⟩)
      · exact Renderer.accepts_of_returns rendered
      · exact accepted pair member

theorem addVariants_safe {data : ChainData} {pairs : List (VariantType × Int)} (results : Results)
    (each : ∀ pair ∈ pairs, ((pair.1.renderer pair.2).run variableNames data mod).Safe) :
    (addVariants pyHash data mod pairs results).Safe := by
  induction pairs generalizing results with
  | nil => exact fun error raised => (Prog.raises_pure _ _).mp raised
  | cons pair pairs ih =>
    obtain ⟨vt, nest⟩ := pair
    intro error raised
    simp only [addVariants, Prog.raises_bind] at raised
    rcases raised with ⟨sol, _, raised⟩ | raised
    · exact ih _ (fun pair member => each pair (List.mem_cons_of_mem _ member)) error raised
    · exact each (vt, nest) (by simp) error raised

theorem results_get {results : Results} {name : Text} (known : name ∈ results.map Prod.fst) :
    ∃ entry, results.get name = .ok entry ∧ (name, entry) ∈ results := by
  induction results with
  | nil => simp at known
  | cons head results ih =>
    obtain ⟨key, value⟩ := head
    by_cases is : name = key
    · exact ⟨value, by simp [Results.get, is], by simp [is]⟩
    · obtain ⟨entry, found, member⟩ := ih (by simpa [is] using known)
      refine ⟨entry, ?_, List.mem_cons_of_mem _ member⟩
      rw [Results.get, List.lookup_cons, beq_false_of_ne is]
      exact found

variable {maxNests : List Int} {variantTypes : List VariantType} {includeRightforward : Bool}

theorem generateAllVariants_returns {drawn : Variants}
    (returned : (generateAllVariants pyHash op numberRange mod maxNests variantTypes
      includeRightforward).Returns drawn) :
    ∃ data, (generateChain op numberRange mod).Returns data ∧ drawn.problem = data.problemText ∧
      drawn.question = data.questionText ∧ drawn.op = op ∧
      (∀ name ∈ modeNames maxNests variantTypes includeRightforward, name ∈ drawn.results.map Prod.fst) ∧
      (∀ entry ∈ drawn.results, Solution entry.2.1 (data.value data.ops.length)) ∧
      ∀ pair ∈ variantPairs maxNests variantTypes, (pair.1.renderer pair.2).Accepts data.ops.length := by
  simp only [generateAllVariants, Prog.returns_bind] at returned
  obtain ⟨data, chained, explicitSol, explicit, results, added, returned⟩ := returned
  have generated := generateChain_returns chained
  obtain ⟨keys, solved, accepted⟩ := addVariants_returns generated added
  have variants : ∀ entry ∈ results, Solution entry.2.1 (data.value data.ops.length) := by
    refine solved fun entry member => ?_
    obtain rfl := List.mem_singleton.mp member
    exact generated.rendered .normalforward explicit
  cases includeRightforward with
  | true =>
    simp only [if_true, Prog.returns_bind, Prog.returns_pure] at returned
    obtain ⟨rightSol, right, rfl⟩ := returned
    refine ⟨data, chained, rfl, rfl, rfl, fun name member => ?_, ?_, accepted⟩
    · simpa [modeNames, keys, or_comm, or_assoc, or_left_comm] using member
    · rintro entry (_ | ⟨_, member⟩)
      · exact generated.rendered .rightforward right
      · exact variants entry member
  | false =>
    simp only [Bool.false_eq_true, if_false, Prog.returns_pure] at returned
    obtain rfl := returned
    refine ⟨data, chained, rfl, rfl, rfl, fun name member => ?_, variants, accepted⟩
    simpa [modeNames, keys, or_comm] using member

theorem Generated.variants_render (pyHash : Text → Int) {data : ChainData}
    (generated : Generated op mod data)
    (accepts : ∀ pair ∈ variantPairs maxNests variantTypes,
      (pair.1.renderer pair.2).Accepts data.ops.length) (results : Results) :
    (normalforwardSolution variableNames data).Safe ∧
      (addVariants pyHash data mod (variantPairs maxNests variantTypes) results).Safe ∧
      (rightforwardSolution variableNames data mod).Safe :=
  ⟨(generated.render .normalforward trivial).1,
    addVariants_safe results fun pair member => (generated.render _ (accepts pair member)).1,
    (generated.render .rightforward trivial).1⟩

theorem generateAllVariants_safe (chain : (generateChain op numberRange mod).Safe)
    (accepts : ∀ pair ∈ variantPairs maxNests variantTypes, (pair.1.renderer pair.2).Accepts op.toNat) :
    (generateAllVariants pyHash op numberRange mod maxNests variantTypes includeRightforward).Safe := by
  intro error raised
  simp only [generateAllVariants, Prog.raises_bind] at raised
  rcases raised with ⟨data, chained, raised⟩ | raised
  · have generated := generateChain_returns chained
    have render := Generated.variants_render pyHash generated
      (by have := generated.length; rwa [← this] at accepts)
    rcases raised with ⟨explicitSol, _, ⟨results, _, raised⟩ | raised⟩ | raised
    · split at raised
      · simp only [Prog.raises_bind, Prog.raises_pure, and_false, exists_false, false_or] at raised
        exact (render []).2.2 error raised
      · exact (Prog.raises_pure _ _).mp raised
    · exact (render _).2.1 error raised
    · exact (render []).1 error raised
  · exact chain error raised

theorem generateAllVariants_possible {data : ChainData}
    (chained : (generateChain op numberRange mod).Returns data)
    (accepts : ∀ pair ∈ variantPairs maxNests variantTypes, (pair.1.renderer pair.2).Accepts op.toNat) :
    ∃ drawn, (generateAllVariants pyHash op numberRange mod maxNests variantTypes
      includeRightforward).Returns drawn := by
  have generated := generateChain_returns chained
  have render := Generated.variants_render pyHash generated
    (by have := generated.length; rwa [← this] at accepts)
  obtain ⟨explicitSol, explicit⟩ := exists_returns (render []).1
  obtain ⟨results, added⟩ := exists_returns
    (render [(lit "explicit", explicitSol, stringToNumber pyHash explicitSol)]).2.1
  obtain ⟨rightSol, right⟩ := exists_returns (render []).2.2
  simp only [generateAllVariants, Prog.returns_bind]
  cases includeRightforward with
  | true =>
    simp only [if_true, Prog.returns_bind, Prog.returns_pure]
    exact ⟨_, data, chained, explicitSol, explicit, results, added, rightSol, right, rfl⟩
  | false => exact ⟨_, data, chained, explicitSol, explicit, results, added, rfl⟩

end Draws

section Lawful

variable {pyHash : Text → Int} {args : Args} {numPerWorker : Int}

theorem workSampling_lawful (mode : Mode) :
    (workSampling pyHash args numPerWorker mode).Lawful fun drawn => [sampleRecord mode.text drawn] where
  nonempty := args.listoperations_filled
  op_eq op drawn drew := by
    obtain ⟨_, _, _, _, rfl⟩ := generateSample_returns.mp drew
    rfl
  tally_start := by simp [workSampling, Sampling.start]
  tally_lines _ _ := rfl
  filed op drawn idx state _ := by
    refine ⟨_, rfl, rfl, ?_, rfl⟩
    apply List.ext_getElem?
    intro index
    simp only [workSampling, List.getElem?_map, List.getElem?_modify]
    cases state.items[index]? with
    | none => rfl
    | some before => by_cases chosen : idx = index <;> simp [chosen]

def variantRecords (names : List Text) (drawn : Variants) : List Record :=
  (names.mapM (variantRecord drawn)).toOption.getD []

theorem variantRecord_ok {drawn : Variants} {name : Text} (known : name ∈ drawn.results.map Prod.fst) :
    ∃ entry, variantRecord drawn name =
      .ok (sampleRecord name ⟨drawn.problem, drawn.question, entry.1, drawn.op, entry.2⟩) ∧
        (name, entry) ∈ drawn.results := by
  obtain ⟨entry, found, member⟩ := results_get known
  exact ⟨entry, by rw [variantRecord, found]; rfl, member⟩

theorem variantSampling_lawful (allNests : List Int) :
    (variantSampling pyHash args numPerWorker allNests).Lawful
      (variantRecords (modeNames allNests args.variantTypes args.includeRightforward)) where
  nonempty := args.listoperations_filled
  op_eq op drawn drew := by
    obtain ⟨_, _, _, _, same, _⟩ := generateAllVariants_returns drew
    exact same
  tally_start := rfl
  tally_lines _ _ := rfl
  filed op drawn idx state drew := by
    obtain ⟨_, _, _, _, _, keys, _⟩ := generateAllVariants_returns drew
    obtain ⟨made, rendered, _⟩ := mapM_exists (p := fun _ => True) fun name member => by
      obtain ⟨entry, made, _⟩ := variantRecord_ok (keys name member)
      exact ⟨_, made, trivial⟩
    have filed : (variantSampling pyHash args numPerWorker allNests).file idx drawn state =
        .ok ⟨state.items.modify idx (· ++ made), state.counts.modify idx (· + 1), state.lines⟩ := by
      simp only [variantSampling, rendered, ok_bind]
      rfl
    refine ⟨_, filed, ?_, rfl, rfl⟩
    simp only [variantRecords, rendered]
    rfl

end Lawful

end CotCompression
