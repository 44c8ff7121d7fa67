import CotCompression.Generator.Outcome
import CotCompression.Generator.Rendered

set_option autoImplicit false

namespace CotCompression

open Program (Prog)
open Text (lit decimal)

inductive Renderer where
  | normalforward
  | composedforward (maxNest : Int)
  | simplifiedforward (maxNest : Int)
  | rightforward
  | balanceforward
  | implicit (maxNest : Int)
  deriving DecidableEq

namespace Renderer

def run (vars : List Text) (data : ChainData) (mod : Int) : Renderer → Py Text
  | normalforward => normalforwardSolution vars data
  | composedforward maxNest => composedforwardSolution vars data mod maxNest
  | simplifiedforward maxNest => simplifiedforwardSolution vars data mod maxNest
  | rightforward => rightforwardSolution vars data mod
  | balanceforward => balanceforwardSolution vars data mod
  | implicit maxNest => .ofExcept (implicitSolution data maxNest)

-- The chains a renderer gets through: no step of zero, and a power of two for the tree.
def Accepts (op : Nat) : Renderer → Prop
  | composedforward maxNest => op ≤ 1 ∨ maxNest ≠ 0
  | simplifiedforward maxNest => op ≤ 1 ∨ maxNest ≠ 0
  | balanceforward => ¬(op < 2 ∨ op &&& (op - 1) ≠ 0)
  | implicit maxNest => maxNest = 0 → op = 0
  | _ => True

end Renderer

inductive Mode where
  | forward
  | backward
  | hierarchical
  deriving DecidableEq

namespace Mode

def text : Mode → Text
  | forward => lit "forward"
  | backward => lit "backward"
  | hierarchical => lit "hierarchical"

def renderer : Mode → Renderer
  | forward => .normalforward
  | backward => .rightforward
  | hierarchical => .balanceforward

end Mode

inductive VariantType where
  | composed
  | implicit
  deriving DecidableEq

namespace VariantType

def text : VariantType → Text
  | composed => lit "composed"
  | implicit => lit "implicit"

def renderer (nest : Int) : VariantType → Renderer
  | composed => .composedforward nest
  | implicit => .implicit nest

end VariantType

-- string_to_number; `pyHash` is Python's hash, seeded anew in every process.
def stringToNumber (pyHash : Text → Int) (s : Text) : Int := pyHash s % 23

/-- The tuple generate_sample returns. -/
structure Sample where
  problem : Text
  question : Text
  solution : Text
  op : Int
  id : Int
  deriving DecidableEq

def generateSample (pyHash : Text → Int) (op numberRange mod : Int) (mode : Mode) : Py Sample := do
  let data ← generateChain op numberRange mod
  let solution ← mode.renderer.run variableNames data mod
  return ⟨data.problemText, data.questionText, solution, op, stringToNumber pyHash solution⟩

-- "{}-nest{}".format(vt, nest)
def modeName (vt : VariantType) (nest : Int) : Text := vt.text ++ lit "-nest" ++ decimal nest

-- results, the latest assignment first
abbrev Results := List (Text × Text × Int)

-- results[name]
def Results.get (results : Results) (name : Text) : Except PyError (Text × Int) :=
  match results.lookup name with
  | some entry => .ok entry
  | none => .error .keyError

def variantPairs (maxNests : List Int) (variantTypes : List VariantType) : List (VariantType × Int) :=
  maxNests.flatMap fun nest => variantTypes.map fun vt => (vt, nest)

def addVariants (pyHash : Text → Int) (data : ChainData) (mod : Int) :
    List (VariantType × Int) → Results → Py Results
  | [], results => pure results
  | (vt, nest) :: rest, results => do
    let sol ← (vt.renderer nest).run variableNames data mod
    addVariants pyHash data mod rest ((modeName vt nest, sol, stringToNumber pyHash sol) :: results)

/-- The tuple generate_all_variants returns. -/
structure Variants where
  problem : Text
  question : Text
  op : Int
  results : Results

def generateAllVariants (pyHash : Text → Int) (op numberRange mod : Int) (maxNests : List Int)
    (variantTypes : List VariantType) (includeRightforward : Bool) : Py Variants := do
  let data ← generateChain op numberRange mod
  let explicitSol ← normalforwardSolution variableNames data
  let results := [(lit "explicit", explicitSol, stringToNumber pyHash explicitSol)]
  let results ← addVariants pyHash data mod (variantPairs maxNests variantTypes) results
  if includeRightforward then
    let rightSol ← rightforwardSolution variableNames data mod
    return ⟨data.problemText, data.questionText, op,
      (lit "rightforward", rightSol, stringToNumber pyHash rightSol) :: results⟩
  else return ⟨data.problemText, data.questionText, op, results⟩

section Correct

variable {data : ChainData} {vars : List Text} {mod : Int}

theorem plain_nodeName {name : Text} (known : name ∈ nodeNames) : Plain name := by
  intro c member
  have letter := Text.alpha_of_lower ((nodeNames_lower name known).2 c member)
  simp [isPlain, Char.isAlphanum, letter]

-- A solution ready for every decoder.
def Solution (s : Text) (answer : Int) : Prop :=
  ∃ lines, s = solutionText lines answer ∧ ∀ line ∈ lines, line.Clear

theorem shuffled_correct {f : List Text → Except PyError Text} {answer : Int}
    (each : ∀ ch, ch.Perm vars → Rendered (f ch) answer) :
    Prog.Safe (do
      let ch ← shuffle vars
      .ofExcept (f ch)) ∧
    ∀ s, Prog.Returns (do
      let ch ← shuffle vars
      .ofExcept (f ch)) s → Solution s answer := by
  refine shuffled_all fun ch same => ?_
  obtain ⟨lines, made, clear⟩ := each ch same
  exact ⟨_, made, lines, rfl, clear⟩

theorem Renderer.correct (renderer : Renderer) (sized : data.Sized)
    (pool : Pool vars (data.ops.length + 1)) (names : ∀ name ∈ data.chainNames, Plain name)
    (divides : mod = 0 → data.ops.length = 0) (accepts : renderer.Accepts data.ops.length) :
    (renderer.run vars data mod).Safe ∧
      ∀ s, (renderer.run vars data mod).Returns s → Solution s (data.value data.ops.length) := by
  have ready (ch : List Text) (same : ch.Perm vars) : Renderable ch data := ⟨sized, pool.perm same, names⟩
  have normal := shuffled_correct fun ch same => normalforward_rendered (ready ch same)
  cases renderer with
  | normalforward => exact normal
  | composedforward maxNest =>
    rw [Renderer.run, composedforwardSolution]
    split
    · exact normal
    · next many =>
      exact shuffled_correct fun ch same => composedforward_rendered (ready ch same)
        (fun zero => by have := divides zero; omega) (by omega) (accepts.resolve_left many)
  | simplifiedforward maxNest =>
    rw [Renderer.run, simplifiedforwardSolution]
    split
    · exact normal
    · next many =>
      exact shuffled_correct fun ch same => simplifiedforward_rendered (ready ch same)
        (fun zero => by have := divides zero; omega) (by omega) (accepts.resolve_left many)
  | rightforward =>
    rw [Renderer.run, rightforwardSolution]
    split
    · exact normal
    · next some =>
      exact shuffled_correct fun ch same => rightforward_rendered (ready ch same)
        (fun zero => some (divides zero)) (by omega)
  | balanceforward =>
    have accepts : ¬(data.ops.length < 2 ∨ data.ops.length &&& (data.ops.length - 1) ≠ 0) := accepts
    simp only [Renderer.run, balanceforwardSolution, if_neg accepts]
    exact shuffled_correct fun ch same => balanceforward_rendered (ready ch same)
      (fun zero => by have := divides zero; omega) (by omega)
  | implicit maxNest =>
    obtain ⟨lines, made, clear⟩ := implicit_rendered (ready vars (List.Perm.refl _)) accepts
    rw [Renderer.run, made]
    refine ⟨fun error raised => ?_, fun s returned => ?_⟩
    · cases (Prog.raises_ofExcept _ _).mp raised
    · exact ⟨lines, (Except.ok.inj ((Prog.returns_ofExcept _ _).mp returned)).symm, clear⟩

theorem breakpoints_zero (op : Nat) : breakpoints op 0 = .error .valueError := rfl

theorem shuffled_error {vars : List Text} {f : List Text → Except PyError Text} {s : Text}
    (fails : ∀ ch, ∃ error, f ch = .error error) : ¬ Prog.Returns (do
      let ch ← shuffle vars
      .ofExcept (f ch)) s := by
  intro returned
  obtain ⟨ch, _, made⟩ := returns_shuffled returned
  obtain ⟨error, failed⟩ := fails ch
  rw [failed] at made
  cases made

theorem Renderer.accepts_of_returns {renderer : Renderer} {s : Text}
    (returned : (renderer.run vars data mod).Returns s) : renderer.Accepts data.ops.length := by
  cases renderer with
  | normalforward => trivial
  | rightforward => trivial
  | composedforward maxNest =>
    by_contra refused
    obtain ⟨many, rfl⟩ : 1 < data.ops.length ∧ maxNest = 0 := by simpa [Renderer.Accepts] using refused
    rw [Renderer.run, composedforwardSolution, if_neg (by omega)] at returned
    exact shuffled_error (fun ch => ⟨.valueError, rfl⟩) returned
  | simplifiedforward maxNest =>
    by_contra refused
    obtain ⟨many, rfl⟩ : 1 < data.ops.length ∧ maxNest = 0 := by simpa [Renderer.Accepts] using refused
    rw [Renderer.run, simplifiedforwardSolution, if_neg (by omega)] at returned
    exact shuffled_error (fun ch => ⟨.valueError, rfl⟩) returned
  | balanceforward =>
    intro refused
    simp only [Renderer.run, balanceforwardSolution, if_pos refused] at returned
    exact (Prog.returns_raise _ _).mp returned
  | implicit maxNest =>
    rintro rfl
    by_contra some
    have made := (Prog.returns_ofExcept _ _).mp returned
    rw [implicitSolution, implicitBreakpoints, if_neg (by omega), breakpoints_zero] at made
    cases made

end Correct

theorem Generated.pool {op mod : Int} {data : ChainData} (generated : Generated op mod data) :
    Pool variableNames (data.ops.length + 1) :=
  variablePool (by have := generated.length; have := generated.op_le; omega)

theorem Generated.plain {op mod : Int} {data : ChainData} (generated : Generated op mod data) :
    ∀ name ∈ data.chainNames, Plain name :=
  fun name member => plain_nodeName (generated.names_mem name member)

theorem Generated.renderable {op mod : Int} {data : ChainData} {ch : List Text} (generated : Generated op mod data)
    (perm : ch.Perm variableNames) : Renderable ch data :=
  ⟨generated.sized, generated.pool.perm perm, generated.plain⟩

theorem Generated.render {op mod : Int} {data : ChainData} (generated : Generated op mod data)
    (renderer : Renderer) (accepts : renderer.Accepts data.ops.length) :
    (renderer.run variableNames data mod).Safe ∧
      ∀ s, (renderer.run variableNames data mod).Returns s →
        Solution s (data.value data.ops.length) :=
  renderer.correct generated.sized generated.pool generated.plain generated.divides accepts

theorem Generated.rendered {op mod : Int} {data : ChainData} {s : Text} (generated : Generated op mod data)
    (renderer : Renderer) (returned : (renderer.run variableNames data mod).Returns s) :
    Solution s (data.value data.ops.length) :=
  (generated.render renderer (Renderer.accepts_of_returns returned)).2 s returned

end CotCompression
