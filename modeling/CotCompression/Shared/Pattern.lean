import Mathlib.Data.List.Forall2
import Mathlib.Data.List.Infix
import Mathlib.Tactic.Common
import CotCompression.Shared.Text

set_option autoImplicit false

/-- Backtracking patterns over character classes: all the ways to match at the front of a text, the preferred way
first. -/
inductive Pattern where
  | empty
  | one (p : Char → Bool)
  | seq (front back : Pattern)
  | alt (front back : Pattern)
  | star (p : Char → Bool)
  | lazy (p : Char → Bool)
  | group (inner : Pattern)

namespace Pattern

structure Match where
  text : Text
  groups : List Text
  rest : Text
  deriving DecidableEq

def runs (p : Char → Bool) : Text → List (Text × Text)
  | [] => [([], [])]
  | c :: rest =>
      if p c then (runs p rest).map (fun (run, later) => (c :: run, later)) ++ [([], c :: rest)]
      else [([], c :: rest)]

def ways : Pattern → Text → List Match
  | empty, t => [⟨[], [], t⟩]
  | one _, [] => []
  | one p, c :: rest => if p c then [⟨[c], [], rest⟩] else []
  | seq front back, t =>
      (front.ways t).flatMap fun m =>
        (back.ways m.rest).map fun n => ⟨m.text ++ n.text, m.groups ++ n.groups, n.rest⟩
  | alt front back, t => front.ways t ++ back.ways t
  | star p, t => (runs p t).map fun (run, rest) => ⟨run, [], rest⟩
  | lazy p, t => (runs p t).reverse.map fun (run, rest) => ⟨run, [], rest⟩
  | group inner, t => (inner.ways t).map fun m => { m with groups := m.text :: m.groups }

def plus (p : Char → Bool) : Pattern := seq (one p) (star p)

def opt (inner : Pattern) : Pattern := alt inner empty

def word : List (Char → Bool) → Pattern
  | [] => empty
  | p :: ps => seq (one p) (word ps)

def exactly (t : Text) : Pattern := word (t.map fun c d => d == c)

-- re.match: the preferred way at the front of `t`.
def first (pattern : Pattern) (t : Text) : Option Match := (pattern.ways t).head?

-- re.search: the leftmost place with a match.
def search (pattern : Pattern) (t : Text) : Option Match := t.tails.findSome? pattern.first

-- re.fullmatch: the preferred way that uses up the text.
def fullmatch (pattern : Pattern) (t : Text) : Option Match :=
  (pattern.ways t).find? fun m => m.rest.isEmpty

-- re.findall for a pattern that never matches the empty text: `skip` characters of the last
-- match are still to be passed.
def findallFrom (pattern : Pattern) : Nat → Text → List Match
  | _, [] => []
  | skip + 1, _ :: rest => findallFrom pattern skip rest
  | 0, c :: rest =>
      match pattern.first (c :: rest) with
      | some m => m :: findallFrom pattern (m.text.length - 1) rest
      | none => findallFrom pattern 0 rest

def findall (pattern : Pattern) (t : Text) : List Match := findallFrom pattern 0 t

theorem runs_split {p : Char → Bool} {t run rest : Text} (member : (run, rest) ∈ runs p t) :
    t = run ++ rest ∧ ∀ c ∈ run, p c = true := by
  induction t generalizing run with
  | nil => simp_all [runs]
  | cons c t ih =>
    by_cases inside : p c = true
    · simp only [runs, inside, if_true, List.mem_append, List.mem_map, List.mem_singleton,
        Prod.mk.injEq] at member
      rcases member with ⟨⟨later, tail⟩, found, rfl, rfl⟩ | ⟨rfl, rfl⟩
      · obtain ⟨rfl, all⟩ := ih found
        exact ⟨rfl, by simpa [inside] using all⟩
      · simp
    · simp_all [runs]

theorem ways_split (pattern : Pattern) {t : Text} {m : Match} (member : m ∈ pattern.ways t) :
    t = m.text ++ m.rest := by
  induction pattern generalizing t m with
  | empty => simp_all [ways]
  | one p =>
    cases t with
    | nil => simp [ways] at member
    | cons c t =>
      simp only [ways] at member
      split at member <;> simp_all
  | seq front back ihf ihb =>
    simp only [ways, List.mem_flatMap, List.mem_map] at member
    obtain ⟨m, frontMember, n, backMember, rfl⟩ := member
    rw [ihf frontMember, ihb backMember, List.append_assoc]
  | alt front back ihf ihb =>
    rcases List.mem_append.mp member with member | member
    · exact ihf member
    · exact ihb member
  | star p =>
    obtain ⟨⟨run, rest⟩, found, rfl⟩ := List.mem_map.mp member
    exact (runs_split found).1
  | lazy p =>
    obtain ⟨⟨run, rest⟩, found, rfl⟩ := List.mem_map.mp member
    exact (runs_split (List.mem_reverse.mp found)).1
  | group inner ih =>
    obtain ⟨m, found, rfl⟩ := List.mem_map.mp member
    exact ih (m := m) found

theorem first_split {pattern : Pattern} {t : Text} {m : Match} (found : pattern.first t = some m) :
    t = m.text ++ m.rest :=
  ways_split pattern (List.mem_of_mem_head? found)

theorem head?_flatMap {α β : Type} (xs : List α) (f : α → List β) :
    (xs.flatMap f).head? = xs.findSome? fun x => (f x).head? := by
  induction xs with
  | nil => rfl
  | cons x xs ih => cases h : f x <;> simp [List.flatMap_cons, h, ih]

def follow (back : Pattern) (m : Match) : Option Match :=
  (back.first m.rest).map fun n => ⟨m.text ++ n.text, m.groups ++ n.groups, n.rest⟩

theorem first_seq (front back : Pattern) (t : Text) :
    (seq front back).first t = (front.ways t).findSome? (follow back) := by
  simp only [first, ways, head?_flatMap, List.head?_map]
  rfl

theorem first_seq_one (p : Char → Bool) (back : Pattern) (c : Char) (t : Text) :
    (seq (one p) back).first (c :: t) =
      if p c then (back.first t).map fun n => ⟨c :: n.text, n.groups, n.rest⟩ else none := by
  by_cases inside : p c = true <;> simp [first_seq, ways, inside, follow]

theorem first_seq_one_nil (p : Char → Bool) (back : Pattern) : (seq (one p) back).first [] = none := by
  simp [first_seq, ways]

theorem first_group (inner : Pattern) (t : Text) :
    (group inner).first t =
      (inner.first t).map fun m => { m with groups := m.text :: m.groups } := by
  simp [first, ways, List.head?_map]

theorem runs_head (p : Char → Bool) (t : Text) :
    ∃ shorter, runs p t = (t.takeWhile p, t.dropWhile p) :: shorter ∧
      ∀ split ∈ shorter, ∃ c rest, split.2 = c :: rest ∧ p c = true := by
  induction t with
  | nil => exact ⟨[], rfl, by simp⟩
  | cons c t ih =>
    by_cases inside : p c = true
    · obtain ⟨shorter, shape, stops⟩ := ih
      refine ⟨shorter.map (fun (run, later) => (c :: run, later)) ++ [([], c :: t)], ?_, ?_⟩
      · simp [runs, inside, shape]
      · intro split member
        rcases List.mem_append.mp member with member | member
        · obtain ⟨before, found, rfl⟩ := List.mem_map.mp member
          exact stops before found
        · rw [List.mem_singleton.mp member]
          exact ⟨c, t, rfl, inside⟩
    · exact ⟨[], by simp [runs, inside], by simp⟩

theorem first_star (p : Char → Bool) (t : Text) :
    (star p).first t = some ⟨t.takeWhile p, [], t.dropWhile p⟩ := by
  obtain ⟨shorter, shape, _⟩ := runs_head p t
  simp [first, ways, shape]

-- The longest run wins as soon as the back part matches behind it ...
theorem first_star_seq_of_some {p : Char → Bool} {back : Pattern} {t : Text} {n : Match}
    (found : back.first (t.dropWhile p) = some n) :
    (seq (star p) back).first t = some ⟨t.takeWhile p ++ n.text, n.groups, n.rest⟩ := by
  obtain ⟨shorter, shape, _⟩ := runs_head p t
  simp [first_seq, ways, shape, follow, found]

-- ... and is the only candidate when the back part never starts inside the run.
theorem first_star_seq_of_stops {p : Char → Bool} {back : Pattern} (t : Text)
    (stops : ∀ c rest, p c = true → back.first (c :: rest) = none) :
    (seq (star p) back).first t =
      (back.first (t.dropWhile p)).map fun n => ⟨t.takeWhile p ++ n.text, n.groups, n.rest⟩ := by
  obtain ⟨shorter, shape, inside⟩ := runs_head p t
  cases found : back.first (t.dropWhile p) with
  | some n => rw [first_star_seq_of_some found]; rfl
  | none =>
    have rest : ∀ split ∈ shorter, follow back ⟨split.1, [], split.2⟩ = none := by
      intro split member
      obtain ⟨c, rest, shape, run⟩ := inside split member
      simp [follow, shape, stops c rest run]
    simp only [first_seq, ways, shape, List.map_cons, List.findSome?_cons, follow, found,
      Option.map_none, List.findSome?_map]
    exact List.findSome?_eq_none_iff.mpr fun split member => rest split member

theorem first_plus (p : Char → Bool) (c : Char) (t : Text) :
    (plus p).first (c :: t) =
      if p c then some ⟨c :: t.takeWhile p, [], t.dropWhile p⟩ else none := by
  rw [plus, first_seq_one, first_star]
  rfl

def dropWord : List (Char → Bool) → Text → Option Text
  | [], t => some t
  | _ :: _, [] => none
  | p :: ps, c :: t => if p c then dropWord ps t else none

theorem first_word_seq (ps : List (Char → Bool)) (back : Pattern) (t : Text) :
    (seq (word ps) back).first t =
      (dropWord ps t).bind fun rest =>
        (back.first rest).map fun n => ⟨t.take ps.length ++ n.text, n.groups, n.rest⟩ := by
  induction ps generalizing t with
  | nil =>
    cases found : back.first t <;> simp [first_seq, word, ways, dropWord, follow, found]
  | cons p ps ih =>
    cases t with
    | nil => simp [word, first_seq, ways, dropWord]
    | cons c t =>
      have step : (seq (word (p :: ps)) back).first (c :: t) =
          if p c then ((seq (word ps) back).first t).map fun n => ⟨c :: n.text, n.groups, n.rest⟩
          else none := by
        by_cases inside : p c = true
        · simp only [word, first_seq, ways, inside, if_true, List.flatMap_cons, List.flatMap_nil,
            List.append_nil, List.findSome?_map, List.map_findSome?]
          congr 1
          funext m
          cases found : back.first m.rest <;> simp [follow, found]
        · simp [word, first_seq, ways, inside]
      rw [step, ih]
      by_cases inside : p c = true
      · simp only [inside, if_true, dropWord, Option.map_bind, List.length_cons, List.take_succ_cons]
        congr 1
        funext rest
        cases found : back.first rest <;> simp [found]
      · simp [inside, dropWord]

theorem dropWord_split {ps : List (Char → Bool)} {t rest : Text} (found : dropWord ps t = some rest) :
    ∃ front, t = front ++ rest ∧ List.Forall₂ (fun p c => p c = true) ps front := by
  induction ps generalizing t with
  | nil => exact ⟨[], by simpa [dropWord] using found, .nil⟩
  | cons p ps ih =>
    cases t with
    | nil => simp [dropWord] at found
    | cons c t =>
      simp only [dropWord] at found
      split at found
      · next inside =>
        obtain ⟨front, rfl, all⟩ := ih found
        exact ⟨c :: front, rfl, .cons inside all⟩
      · simp at found

theorem word_mem {ps : List (Char → Bool)} {front : Text} {c : Char}
    (all : List.Forall₂ (fun p c => p c = true) ps front) (member : c ∈ front) :
    ∃ p ∈ ps, p c = true := by
  obtain ⟨index, within, rfl⟩ := List.getElem_of_mem member
  have counted := all.length_eq
  exact ⟨_, List.getElem_mem (by omega), all.get (by omega) within⟩

theorem word_letter {ps : List (Char → Bool)} {front : Text} {p : Char → Bool}
    (all : List.Forall₂ (fun p c => p c = true) ps front) (member : p ∈ ps) :
    ∃ c ∈ front, p c = true := by
  obtain ⟨index, within, rfl⟩ := List.getElem_of_mem member
  have counted := all.length_eq
  exact ⟨_, List.getElem_mem (by omega), all.get within (by omega)⟩

theorem dropWord_eq_none {ps : List (Char → Bool)} {t : Text} {p : Char → Bool} (member : p ∈ ps)
    (clear : ∀ c ∈ t, p c = false) : dropWord ps t = none := by
  cases dropped : dropWord ps t with
  | none => rfl
  | some rest =>
    obtain ⟨front, rfl, all⟩ := dropWord_split dropped
    obtain ⟨c, inside, holds⟩ := word_letter all member
    rw [clear c (List.mem_append_left _ inside)] at holds
    cases holds

theorem dropWord_append {ps : List (Char → Bool)} {front : Text} (rest : Text)
    (all : List.Forall₂ (fun p c => p c = true) ps front) : dropWord ps (front ++ rest) = some rest := by
  induction all with
  | nil => rfl
  | cons inside _ ih => simpa [dropWord, inside] using ih

-- When no match holds the start of another one, nothing is lost by skipping over it.
theorem findall_eq_tails (pattern : Pattern) (t : Text)
    (apart : ∀ t m, pattern.first t = some m →
      m.text ≠ [] ∧ ∀ v, v ≠ [] → v <:+ m.text.tail → pattern.first (v ++ m.rest) = none)
    (nil : pattern.first [] = none) :
    pattern.findall t = t.tails.filterMap pattern.first := by
  have skipping (skipped rest : Text)
      (inside : ∀ v, v ≠ [] → v <:+ skipped → pattern.first (v ++ rest) = none) :
      pattern.findallFrom skipped.length (skipped ++ rest) = pattern.findallFrom 0 rest ∧
        (skipped ++ rest).tails.filterMap pattern.first = rest.tails.filterMap pattern.first := by
    induction skipped with
    | nil => exact ⟨rfl, rfl⟩
    | cons c skipped ih =>
      have later := ih fun v filled suffix => inside v filled (suffix.trans (List.suffix_cons c skipped))
      refine ⟨later.1, ?_⟩
      have here := inside (c :: skipped) (by simp) (List.suffix_refl _)
      rw [List.cons_append] at here ⊢
      rw [List.tails_cons, List.filterMap_cons_none here, later.2]
  suffices ∀ length t, t.length ≤ length →
      pattern.findallFrom 0 t = t.tails.filterMap pattern.first from this _ t le_rfl
  intro length
  induction length with
  | zero =>
    intro t bound
    obtain rfl : t = [] := List.length_eq_zero_iff.mp (by omega)
    simp [findallFrom, nil]
  | succ length ih =>
    intro t bound
    cases t with
    | nil => simp [findallFrom, nil]
    | cons c t =>
      have short : t.length ≤ length := by simpa using bound
      cases found : pattern.first (c :: t) with
      | none => rw [findallFrom, found, List.tails_cons, List.filterMap_cons_none found, ih t short]
      | some m =>
        obtain ⟨filled, none⟩ := apart _ m found
        obtain ⟨d, run, shape⟩ := List.exists_cons_of_ne_nil filled
        have split := first_split found
        rw [shape, List.cons_append, List.cons.injEq] at split
        rw [shape, List.tail_cons] at none
        have skip := skipping run m.rest none
        have bound : m.rest.length ≤ length := by
          have := congrArg List.length split.2
          simp only [List.length_append] at this
          omega
        rw [findallFrom, found, List.tails_cons, List.filterMap_cons_some found]
        simp only [shape, List.length_cons, Nat.add_sub_cancel]
        rw [split.2, skip.1, skip.2, ih m.rest bound]

theorem first_seq_alt (front other back : Pattern) (t : Text) :
    (seq (alt front other) back).first t =
      ((seq front back).first t).or ((seq other back).first t) := by
  rw [first_seq, first_seq, first_seq, ways, List.findSome?_append]

theorem first_seq_empty (back : Pattern) (t : Text) : (seq empty back).first t = back.first t := by
  cases found : back.first t <;> simp [first_seq, ways, follow, found]

theorem first_plus_nil (p : Char → Bool) : (plus p).first [] = none := first_seq_one_nil p _

theorem findall_getLast? {pattern : Pattern} {t u : Text} {m : Match}
    (apart : ∀ t m, pattern.first t = some m →
      m.text ≠ [] ∧ ∀ v, v ≠ [] → v <:+ m.text.tail → pattern.first (v ++ m.rest) = none)
    (nil : pattern.first [] = none) (suffix : u <:+ t) (found : pattern.first u = some m)
    (last : ∀ v, v <:+ u → v ≠ u → pattern.first v = none) :
    (pattern.findall t).getLast? = some m := by
  obtain ⟨front, rfl⟩ := suffix
  rw [findall_eq_tails pattern _ apart nil]
  induction front with
  | nil =>
    rcases u with _ | ⟨c, u⟩
    · rw [nil] at found
      cases found
    · have none : u.tails.filterMap pattern.first = [] := by
        rw [List.filterMap_eq_nil_iff]
        intro v member
        have inside := (List.mem_tails v u).mp member
        refine last v (inside.trans (List.suffix_cons c u)) ?_
        rintro rfl
        have := inside.length_le
        simp only [List.length_cons] at this
        omega
      rw [List.nil_append, List.tails_cons, List.filterMap_cons_some found, none]
      rfl
  | cons c front ih =>
    rw [List.cons_append, List.tails_cons]
    cases here : pattern.first (c :: (front ++ u)) with
    | none => rw [List.filterMap_cons_none here, ih]
    | some n =>
      rw [List.filterMap_cons_some here, List.getLast?_cons, ih]
      rfl

section Glued

variable {pattern : Pattern} {s t : Text}

theorem first_of_mem_findall {pattern : Pattern} {t : Text} {m : Match} (member : m ∈ pattern.findall t) :
    ∃ u, pattern.first u = some m := by
  have general (skip : Nat) (t : Text) (member : m ∈ findallFrom pattern skip t) : ∃ u, pattern.first u = some m := by
    induction t generalizing skip with
    | nil => cases skip <;> cases member
    | cons c rest ih =>
      cases skip with
      | succ skip => exact ih skip member
      | zero =>
        rw [findallFrom] at member
        split at member
        · next found =>
          rcases List.mem_cons.mp member with rfl | later
          · exact ⟨_, found⟩
          · exact ih _ later
        · exact ih 0 member
  exact general 0 t member

theorem findall_ne_nil
    (apart : ∀ t m, pattern.first t = some m →
      m.text ≠ [] ∧ ∀ v, v ≠ [] → v <:+ m.text.tail → pattern.first (v ++ m.rest) = none)
    (nil : pattern.first [] = none) (found : (pattern.search t).isSome) : pattern.findall t ≠ [] := by
  obtain ⟨m, searched⟩ := Option.isSome_iff_exists.mp found
  obtain ⟨u, member, here⟩ := List.exists_of_findSome?_eq_some searched
  rw [findall_eq_tails pattern t apart nil]
  exact List.ne_nil_of_mem (List.mem_filterMap.mpr ⟨u, member, here⟩)

theorem findall_behind
    (apart : ∀ t m, pattern.first t = some m →
      m.text ≠ [] ∧ ∀ v, v ≠ [] → v <:+ m.text.tail → pattern.first (v ++ m.rest) = none)
    (nil : pattern.first [] = none) (front : Text) (found : pattern.findall t ≠ []) :
    (pattern.findall (front ++ t)).getLast? = (pattern.findall t).getLast? := by
  rw [findall_eq_tails pattern _ apart nil] at found ⊢
  rw [findall_eq_tails pattern _ apart nil]
  induction front with
  | nil => rfl
  | cons c front ih =>
    rw [List.cons_append, List.tails_cons]
    cases here : pattern.first (c :: (front ++ t)) with
    | none => rw [List.filterMap_cons_none here, ih]
    | some m =>
      rw [List.filterMap_cons_some here, List.getLast?_cons, ih, List.getLast?_eq_some_getLast found]
      rfl

-- Text that no match reaches into and that holds none leaves all matches as they are.
theorem findall_before
    (apart : ∀ t m, pattern.first t = some m →
      m.text ≠ [] ∧ ∀ v, v ≠ [] → v <:+ m.text.tail → pattern.first (v ++ m.rest) = none)
    (nil : pattern.first [] = none) (t : Text)
    (glued : ∀ v, pattern.first (v ++ s) = (pattern.first v).map fun m => { m with rest := m.rest ++ s })
    (clear : pattern.search s = none) :
    pattern.findall (t ++ s) = (pattern.findall t).map fun m => { m with rest := m.rest ++ s } := by
  have none : s.tails.filterMap pattern.first = [] :=
    List.filterMap_eq_nil_iff.mpr fun v member => List.findSome?_eq_none_iff.mp clear v member
  rw [findall_eq_tails pattern _ apart nil, findall_eq_tails pattern _ apart nil]
  induction t with
  | nil => simp [none, nil]
  | cons c t ih =>
    have here := glued (c :: t)
    rw [List.cons_append] at here
    rw [List.cons_append, List.tails_cons, List.tails_cons]
    cases found : pattern.first (c :: t) with
    | none => rw [List.filterMap_cons_none found, List.filterMap_cons_none (by rw [here, found]; rfl), ih]
    | some m =>
      rw [List.filterMap_cons_some found, List.filterMap_cons_some (by rw [here, found]; rfl), ih]
      rfl

theorem dropWord_glued {ps : List (Char → Bool)} {c : Char} (other : ∀ p ∈ ps, p c = false) (t rest : Text) :
    dropWord ps (t ++ c :: rest) = (dropWord ps t).map (· ++ c :: rest) := by
  induction ps generalizing t with
  | nil => rfl
  | cons p ps ih =>
    obtain ⟨here, later⟩ := List.forall_mem_cons.mp other
    cases t with
    | nil => simp [dropWord, here]
    | cons d t =>
      simp only [List.cons_append, dropWord]
      split
      · exact ih later t
      · rfl

end Glued

theorem search_append {pattern : Pattern} {front u : Text} {m : Match} (found : pattern.first u = some m)
    (never : ∀ v, v ≠ [] → v <:+ front → pattern.first (v ++ u) = none) :
    pattern.search (front ++ u) = some m := by
  induction front with
  | nil =>
    cases u with
    | nil => simp [search, found]
    | cons c u => simp [search, found]
  | cons c front ih =>
    have here := never (c :: front) (by simp) (List.suffix_refl _)
    rw [List.cons_append] at here ⊢
    rw [search, List.tails_cons, List.findSome?_cons, here]
    exact ih fun v filled inside => never v filled (inside.trans (List.suffix_cons c front))

theorem search_eq_none {pattern : Pattern} {t : Text} (never : ∀ u, u <:+ t → pattern.first u = none) :
    pattern.search t = none := by
  rw [search, List.findSome?_eq_none_iff]
  intro u member
  exact never u ((List.mem_tails u t).mp member)

section Fits

variable {front back pattern : Pattern} {a b rest : Text} {g h : List Text} {p : Char → Bool} {c : Char}

def Fits (pattern : Pattern) (a : Text) (g : List Text) (rest : Text) : Prop :=
  ⟨a, g, rest⟩ ∈ pattern.ways (a ++ rest)

theorem fits_empty : Fits empty [] [] rest := by simp [Fits, ways]

theorem fits_one (inside : p c = true) : Fits (one p) [c] [] rest := by simp [Fits, ways, inside]

theorem fits_seq (left : Fits front a g (b ++ rest)) (right : Fits back b h rest) :
    Fits (seq front back) (a ++ b) (g ++ h) rest := by
  simp only [Fits, ways, List.mem_flatMap, List.mem_map]
  rw [List.append_assoc]
  exact ⟨_, left, _, right, rfl⟩

theorem fits_alt_left (left : Fits front a g rest) : Fits (alt front back) a g rest :=
  List.mem_append_left _ left

theorem fits_alt_right (right : Fits back a g rest) : Fits (alt front back) a g rest :=
  List.mem_append_right _ right

theorem mem_runs (all : ∀ c ∈ a, p c = true) : (a, rest) ∈ runs p (a ++ rest) := by
  induction a with
  | nil =>
    cases rest with
    | nil => simp [runs]
    | cons c rest =>
      by_cases inside : p c = true <;> simp [runs, inside]
  | cons c a ih =>
    have later := ih fun d member => all d (List.mem_cons_of_mem _ member)
    rw [List.cons_append, runs, if_pos (all c (by simp))]
    exact List.mem_append_left _ (List.mem_map.mpr ⟨_, later, rfl⟩)

theorem fits_star (all : ∀ c ∈ a, p c = true) : Fits (star p) a [] rest :=
  List.mem_map.mpr ⟨_, mem_runs all, rfl⟩

theorem fits_plus (filled : a ≠ []) (all : ∀ c ∈ a, p c = true) : Fits (plus p) a [] rest := by
  obtain ⟨c, a, rfl⟩ := List.exists_cons_of_ne_nil filled
  have head : Fits (one p) [c] [] (a ++ rest) := fits_one (all c (by simp))
  exact fits_seq head (fits_star fun d member => all d (List.mem_cons_of_mem _ member))

theorem fits_opt_none : Fits (opt pattern) [] [] rest := fits_alt_right fits_empty

theorem fullmatch_of_fits (fits : Fits pattern a g []) :
    ∃ m, pattern.fullmatch a = some m ∧ m.text = a := by
  rw [Fits, List.append_nil] at fits
  obtain ⟨m, found⟩ : ∃ m, pattern.fullmatch a = some m :=
    Option.isSome_iff_exists.mp (List.find?_isSome.mpr ⟨_, fits, rfl⟩)
  have whole : m.rest = [] := by simpa using List.find?_some found
  have split := ways_split pattern (List.mem_of_find?_eq_some found)
  rw [whole, List.append_nil] at split
  exact ⟨m, found, split.symm⟩

end Fits

section Takes

variable {front back inner : Pattern} {p : Char → Bool} {a : Text}

def Takes (pattern : Pattern) (a : Text) : Prop := ∃ t, ∃ m ∈ pattern.ways t, m.text = a

theorem takes_of_fullmatch {pattern : Pattern} {t : Text} {m : Match} (found : pattern.fullmatch t = some m) :
    Takes pattern t ∧ m.text = t := by
  have member := List.mem_of_find?_eq_some found
  have whole : m.rest = [] := by simpa using List.find?_some found
  have split := ways_split pattern member
  rw [whole, List.append_nil] at split
  exact ⟨⟨t, m, member, split.symm⟩, split.symm⟩

theorem takes_empty (takes : Takes empty a) : a = [] := by
  obtain ⟨t, m, member, rfl⟩ := takes
  simp_all [ways]

theorem takes_one (takes : Takes (one p) a) : ∃ c, a = [c] ∧ p c = true := by
  obtain ⟨t, m, member, rfl⟩ := takes
  cases t with
  | nil => simp [ways] at member
  | cons c t =>
    simp only [ways] at member
    split at member <;> simp_all

theorem takes_seq (takes : Takes (seq front back) a) : ∃ b c, a = b ++ c ∧ Takes front b ∧ Takes back c := by
  obtain ⟨t, m, member, rfl⟩ := takes
  simp only [ways, List.mem_flatMap, List.mem_map] at member
  obtain ⟨left, found, right, later, rfl⟩ := member
  exact ⟨_, _, rfl, ⟨t, left, found, rfl⟩, ⟨_, right, later, rfl⟩⟩

theorem takes_alt (takes : Takes (alt front back) a) : Takes front a ∨ Takes back a := by
  obtain ⟨t, m, member, rfl⟩ := takes
  rcases List.mem_append.mp member with member | member
  · exact .inl ⟨t, m, member, rfl⟩
  · exact .inr ⟨t, m, member, rfl⟩

theorem takes_star (takes : Takes (star p) a) : ∀ c ∈ a, p c = true := by
  obtain ⟨t, m, member, rfl⟩ := takes
  obtain ⟨_, found, rfl⟩ := List.mem_map.mp member
  exact (runs_split found).2

theorem takes_group (takes : Takes (group inner) a) : Takes inner a := by
  obtain ⟨t, m, member, rfl⟩ := takes
  obtain ⟨n, found, rfl⟩ := List.mem_map.mp member
  exact ⟨t, n, found, rfl⟩

theorem takes_plus (takes : Takes (plus p) a) : a ≠ [] ∧ ∀ c ∈ a, p c = true := by
  obtain ⟨_, rest, rfl, head, tail⟩ := takes_seq takes
  obtain ⟨c, rfl, inside⟩ := takes_one head
  exact ⟨by simp, List.forall_mem_cons.mpr ⟨inside, takes_star tail⟩⟩

theorem takes_opt (takes : Takes (opt inner) a) : Takes inner a ∨ a = [] :=
  (takes_alt takes).imp_right takes_empty

end Takes

def Needs (p : Char → Bool) (pattern : Pattern) : Prop :=
  ∀ t m, m ∈ pattern.ways t → ∃ c ∈ m.text, p c = true

theorem needs_one (p : Char → Bool) : Needs p (one p) := by
  intro t m member
  rcases t with _ | ⟨c, t⟩
  · simp [ways] at member
  · by_cases inside : p c = true
    · obtain rfl : m = ⟨[c], [], t⟩ := by simpa [ways, inside] using member
      exact ⟨c, by simp, inside⟩
    · simp [ways, inside] at member

theorem needs_seq_left {p : Char → Bool} {front : Pattern} (back : Pattern) (needs : Needs p front) :
    Needs p (seq front back) := by
  intro t m member
  simp only [ways, List.mem_flatMap, List.mem_map] at member
  obtain ⟨left, found, right, _, rfl⟩ := member
  obtain ⟨c, inside, holds⟩ := needs t left found
  exact ⟨c, List.mem_append_left _ inside, holds⟩

theorem needs_seq_right {p : Char → Bool} (front : Pattern) {back : Pattern} (needs : Needs p back) :
    Needs p (seq front back) := by
  intro t m member
  simp only [ways, List.mem_flatMap, List.mem_map] at member
  obtain ⟨left, _, right, found, rfl⟩ := member
  obtain ⟨c, inside, holds⟩ := needs _ right found
  exact ⟨c, List.mem_append_right _ inside, holds⟩

theorem fullmatch_eq_none {p : Char → Bool} {pattern : Pattern} {t : Text} (needs : Needs p pattern)
    (clear : ∀ c ∈ t, p c = false) : pattern.fullmatch t = none := by
  rw [fullmatch, List.find?_eq_none]
  intro m member _
  obtain ⟨c, inside, holds⟩ := needs t m member
  rw [clear c (ways_split pattern member ▸ List.mem_append_left _ inside)] at holds
  cases holds

theorem search_eq_none_of_needs {p : Char → Bool} {pattern : Pattern} {t : Text}
    (needs : Needs p pattern) (clear : ∀ c ∈ t, p c = false) : pattern.search t = none := by
  refine search_eq_none fun u inside => ?_
  cases found : pattern.first u with
  | none => rfl
  | some m =>
    have member := List.mem_of_mem_head? found
    obtain ⟨c, known, holds⟩ := needs u m member
    have split : c ∈ u := ways_split pattern member ▸ List.mem_append_left _ known
    rw [clear c (inside.subset split)] at holds
    cases holds

theorem needs_word {p : Char → Bool} {ps : List (Char → Bool)} (member : p ∈ ps) : Needs p (word ps) := by
  induction ps with
  | nil => simp at member
  | cons q ps ih =>
    rcases List.mem_cons.mp member with rfl | member
    · exact needs_seq_left _ (needs_one p)
    · exact needs_seq_right _ (ih member)

end Pattern
