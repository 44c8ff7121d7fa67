import CotCompression.Export.Sft

set_option autoImplicit false

open Json (Value)

namespace CotCompression.Sft

open Text (lit)

def resolve (infoDir : Path) (name : Text) : List Text :=
  (if name.head? = some '/' then [] else infoDir.parts) ++
    (name.splitOn '/').filter fun part => decide (part ≠ [] ∧ part ≠ lit ".")

section Paths

variable {path : Path} {parts : List Text}

theorem splitOn_parts (among : parts <:+ path.parts) (filled : parts ≠ []) :
    (['/'].intercalate parts).splitOn '/' = parts :=
  List.splitOn_intercalate '/' (fun part member => (path.proper part (among.subset member)).2.2) filled

theorem filter_parts (among : parts <:+ path.parts) :
    parts.filter (fun part => decide (part ≠ [] ∧ part ≠ lit ".")) = parts := by
  rw [List.filter_eq_self]
  intro part member
  obtain ⟨filled, dotless, -⟩ := path.proper part (among.subset member)
  exact decide_eq_true ⟨filled, dotless⟩

theorem resolve_text (infoDir path : Path) : resolve infoDir path.text = path.parts := by
  rw [resolve, Path.text, List.head?_cons, if_pos rfl, List.nil_append]
  by_cases empty : path.parts = []
  · rw [empty]
    decide
  · have rooted : '/' :: ['/'].intercalate path.parts = ['/'].intercalate ([] :: path.parts) := by
      cases parts : path.parts with
      | nil => exact absurd parts empty
      | cons part parts => rw [List.intercalate_cons_cons]; rfl
    have flat : ∀ part ∈ [] :: path.parts, '/' ∉ part :=
      List.forall_mem_cons.mpr ⟨List.not_mem_nil, fun part member => (path.proper part member).2.2⟩
    rw [rooted, List.splitOn_intercalate '/' flat (List.cons_ne_nil _ _), List.filter_cons_of_neg (by decide),
      filter_parts List.suffix_rfl]

theorem resolve_relativeText {infoDir : Path} (among : parts <:+ path.parts) :
    resolve infoDir (relativeText parts) = infoDir.parts ++ parts := by
  rw [resolve, relativeText]
  split
  · next empty =>
    rw [empty, if_neg (by decide)]
    congr 1
  · next filled =>
    have relative : (['/'].intercalate parts).head? ≠ some '/' := by
      obtain ⟨part, rest, split⟩ := List.exists_cons_of_ne_nil filled
      obtain ⟨solid, -, flat⟩ := path.proper part (among.subset (by rw [split]; exact List.mem_cons_self))
      obtain ⟨c, part, rfl⟩ := List.exists_cons_of_ne_nil solid
      have other : c ≠ '/' := fun same => flat (by rw [same]; exact List.mem_cons_self)
      rw [split]
      cases rest <;> simp [List.intercalate_cons_cons, other]
    rw [if_neg relative, splitOn_parts among filled, filter_parts among]

theorem resolve_relativeName (infoDir path : Path) : resolve infoDir (relativeName infoDir path) = path.parts := by
  rw [relativeName]
  split
  · next below =>
    rw [resolve_relativeText (List.drop_suffix _ _)]
    exact List.prefix_iff_eq_append.mp below
  · exact resolve_text infoDir path

end Paths

section Register

variable {args : Args} {info : Dict Text Value}

def entryOf (args : Args) (slug : Slug) : Value :=
  datasetEntry (relativeName args.infoDir (dataPath args.outputDir slug))

theorem entryName_inj {first second : Slug} : entryName args first = entryName args second ↔ first = second := by
  obtain ⟨first, _⟩ := first
  obtain ⟨second, _⟩ := second
  simp [entryName]

structure Registers (args : Args) (info : Dict Text Value) (modes : List (Option Text)) (registry : Registry) :
    Prop where
  named : none ∉ modes
  assigned (name : Text) : name ∈ registry.assigned ↔
    ∃ mode, some mode ∈ modes ∧ name = entryName args (slug mode)
  entry (mode : Text) (registered : some mode ∈ modes) :
    registry.info.get? (entryName args (slug mode)) = some (entryOf args (slug mode))
  other (name : Text) (untouched : name ∉ registry.assigned) : registry.info.get? name = info.get? name

theorem Registers.start : Registers args info [] ⟨[], info⟩ where
  named := List.not_mem_nil
  assigned name := by simp
  entry mode registered := absurd registered List.not_mem_nil
  other name untouched := rfl

theorem Registers.step {modes : List (Option Text)} {registry next : Registry} {mode : Option Text}
    (inv : Registers args info modes registry) (step : registerMode args registry mode = .ok next) :
    Registers args info (modes ++ [mode]) next := by
  cases mode with
  | none => cases step
  | some mode =>
    obtain rfl := Except.ok.inj step
    exact {
      named := by simp [inv.named]
      assigned := fun name => by
        simp only [List.mem_append, inv.assigned, List.mem_singleton, Option.some.injEq, or_and_right,
          exists_or, exists_eq_left]
      entry := fun other registered => by
        rw [Dict.get?_set]
        split
        · next same => rw [entryName_inj.mp same, entryOf]
        · next apart =>
          rcases List.mem_append.mp registered with registered | registered
          · exact inv.entry other registered
          · rw [List.mem_singleton, Option.some.injEq] at registered
            exact absurd (by rw [registered]) apart
      other := fun name untouched => by
        simp only [List.mem_append, List.mem_singleton, not_or] at untouched
        rw [Dict.get?_set, if_neg untouched.2, inv.other name untouched.1] }

theorem registerModes_registers {counts : Dict (Option Text) Nat} {registry : Registry}
    (run : registerModes args counts info = .ok registry) : Registers args info counts.keys registry :=
  foldlM_read Registers.start (fun _ _ _ _ inv step => inv.step step) run

theorem registerModes_ok {counts : Dict (Option Text) Nat} (named : none ∉ counts.keys) :
    ∃ registry, registerModes args counts info = .ok registry := by
  refine foldlM_ok (Registers.start : Registers args info [] _) (fun _ _ _ _ inv step => inv.step step)
    fun front mode back registry same inv => ?_
  cases mode with
  | none => exact absurd (by rw [same]; simp) named
  | some mode => exact ⟨_, rfl⟩

end Register

end CotCompression.Sft
