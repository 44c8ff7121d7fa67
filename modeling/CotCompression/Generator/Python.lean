import Mathlib.Data.List.Forall2
import Mathlib.Data.List.Nodup
import Mathlib.Data.List.Perm.Basic
import CotCompression.Shared.Program
import CotCompression.Shared.Text

set_option autoImplicit false

namespace CotCompression

open Program (Prog)

inductive PyError where
  | valueError
  | indexError
  | keyError
  | zeroDivisionError
  | recursionError
  deriving DecidableEq

/-- Calls into Python's random. A request that would raise cannot be built. -/
inductive Request where
  | randint (low high : Int) (nonempty : low ≤ high)
  | choice (size : Nat) (nonempty : 0 < size)
  | sample (size count : Nat) (enough : count ≤ size)
  | shuffle (size : Nat)
  | seed (value : Int)

-- Everything but randint is answered in positions of the argument.
@[reducible] def Request.Answer : Request → Type
  | .randint .. => Int
  | .choice .. => Nat
  | .sample .. => List Nat
  | .shuffle _ => List Nat
  | .seed _ => Unit

def Request.Admits : (request : Request) → request.Answer → Prop
  | .randint low high _, (value : Int) => low ≤ value ∧ value ≤ high
  | .choice size _, (index : Nat) => index < size
  | .sample size count _, (picked : List Nat) =>
      picked.length = count ∧ picked.Nodup ∧ ∀ index ∈ picked, index < size
  | .shuffle size, (order : List Nat) => order.Perm (List.range size)
  | .seed _, _ => True

abbrev random : Program.Signature := ⟨Request, Request.Answer, Request.Admits⟩

abbrev Py (α : Type) := Prog random PyError α

-- random.randint(low, high)
def randint (low high : Int) : Py Int :=
  if h : low ≤ high then .draw (.randint low high h) .pure else .raise .valueError

def item {α : Type} (xs : List α) (index : Nat) : Except PyError α :=
  match xs[index]? with
  | some x => .ok x
  | none => .error .indexError

-- random.choice(xs)
def choice {α : Type} (xs : List α) : Py α :=
  if h : 0 < xs.length then
    .draw (.choice xs.length h) fun (index : Nat) => .ofExcept (item xs index)
  else .raise .indexError

def pick {α : Type} (xs : List α) (indices : List Nat) : List α := indices.filterMap (xs[·]?)

-- random.sample(xs, count)
def sample {α : Type} (xs : List α) (count : Int) : Py (List α) :=
  if h : 0 ≤ count ∧ count.toNat ≤ xs.length then
    .draw (.sample xs.length count.toNat h.2) fun (indices : List Nat) => .pure (pick xs indices)
  else .raise .valueError

-- random.shuffle(xs); the shuffled list is handed back
def shuffle {α : Type} (xs : List α) : Py (List α) :=
  .draw (.shuffle xs.length) fun (order : List Nat) => .pure (pick xs order)

-- random.seed(value)
def seed (value : Int) : Py Unit := .draw (.seed value) fun _ => .pure ()

-- x % m and x // m
def pyMod (x m : Int) : Except PyError Int :=
  if m = 0 then .error .zeroDivisionError else .ok (x.fmod m)

def pyDiv (x m : Int) : Except PyError Int :=
  if m = 0 then .error .zeroDivisionError else .ok (x.fdiv m)

def sliceIndex (length : Nat) (index : Int) : Nat :=
  if index < 0 then (length + index).toNat else index.toNat

-- xs[:stop] and xs[start:]
def sliceTo {α : Type} (xs : List α) (stop : Int) : List α := xs.take (sliceIndex xs.length stop)

def sliceFrom {α : Type} (xs : List α) (start : Int) : List α :=
  xs.drop (sliceIndex xs.length start)

-- range(start, stop, step)
def pyRange (start stop step : Int) : Except PyError (List Int) :=
  if step = 0 then .error .valueError
  else
    let count :=
      if 0 < step then (stop - start + step - 1) / step else (start - stop - step - 1) / (-step)
    .ok ((List.range count.toNat).map fun index : Nat => start + index * step)

-- xs[-1]
def lastItem {α : Type} (xs : List α) : Except PyError α :=
  match xs.getLast? with
  | some x => .ok x
  | none => .error .indexError

section Except

variable {ε α β : Type}

@[simp] theorem ok_bind (value : α) (f : α → Except ε β) : (Except.ok value >>= f) = f value := rfl

@[simp] theorem error_bind (error : ε) (f : α → Except ε β) :
    (Except.error error >>= f) = .error error := rfl

theorem bind_eq_ok {result : Except ε α} {f : α → Except ε β} {value : β} :
    (result >>= f) = .ok value ↔ ∃ middle, result = .ok middle ∧ f middle = .ok value := by
  cases result <;> simp

theorem mapM_ok {f : α → Except ε β} {g : α → β} {xs : List α} (each : ∀ x ∈ xs, f x = .ok (g x)) :
    xs.mapM f = .ok (xs.map g) := by
  induction xs with
  | nil => rfl
  | cons x xs ih =>
    rw [List.mapM_cons, each x (by simp), ih fun y member => each y (List.mem_cons_of_mem _ member)]
    rfl

theorem mapM_exists {f : α → Except ε β} {p : β → Prop} {xs : List α}
    (each : ∀ x ∈ xs, ∃ y, f x = .ok y ∧ p y) : ∃ ys, xs.mapM f = .ok ys ∧ ∀ y ∈ ys, p y := by
  induction xs with
  | nil => exact ⟨[], rfl, by simp⟩
  | cons x xs ih =>
    obtain ⟨y, made, holds⟩ := each x (by simp)
    obtain ⟨ys, rest, all⟩ := ih fun x member => each x (List.mem_cons_of_mem _ member)
    refine ⟨y :: ys, ?_, List.forall_mem_cons.mpr ⟨holds, all⟩⟩
    rw [List.mapM_cons, made, ok_bind, rest]
    rfl

theorem mapM_forall₂ {f : α → Except ε β} {xs : List α} {ys : List β} (made : xs.mapM f = .ok ys) :
    List.Forall₂ (fun x y => f x = .ok y) xs ys := by
  induction xs generalizing ys with
  | nil =>
    obtain rfl := Except.ok.inj made
    exact .nil
  | cons x xs ih =>
    simp only [List.mapM_cons, bind_eq_ok] at made
    obtain ⟨y, here, ys, rest, same⟩ := made
    obtain rfl := Except.ok.inj same
    exact .cons here (ih rest)

theorem map_of_forall₂ {α β γ : Type} {R : α → β → Prop} {f : α → γ} {g : β → γ} {xs : List α} {ys : List β}
    (each : List.Forall₂ R xs ys) (same : ∀ x y, R x y → g y = f x) : ys.map g = xs.map f := by
  induction each with
  | nil => rfl
  | cons here _ ih => rw [List.map_cons, List.map_cons, same _ _ here, ih]

theorem forall₂_mem_right {α β : Type} {R : α → β → Prop} {xs : List α} {ys : List β} {y : β}
    (each : List.Forall₂ R xs ys) (member : y ∈ ys) : ∃ x ∈ xs, R x y := by
  induction each with
  | nil => cases member
  | cons here _ ih =>
    rcases List.mem_cons.mp member with rfl | later
    · exact ⟨_, List.mem_cons_self, here⟩
    · obtain ⟨x, among, holds⟩ := ih later
      exact ⟨x, List.mem_cons_of_mem _ among, holds⟩

theorem forall₂_mem_left {α β : Type} {R : α → β → Prop} {xs : List α} {ys : List β} {x : α}
    (each : List.Forall₂ R xs ys) (member : x ∈ xs) : ∃ y ∈ ys, R x y := by
  induction each with
  | nil => cases member
  | cons here _ ih =>
    rcases List.mem_cons.mp member with rfl | later
    · exact ⟨_, List.mem_cons_self, here⟩
    · obtain ⟨y, among, holds⟩ := ih later
      exact ⟨y, List.mem_cons_of_mem _ among, holds⟩

theorem mapM_error {f : α → Except ε β} {xs : List α} {x : α} {error : ε} (member : x ∈ xs)
    (fails : f x = .error error) : ∃ other, xs.mapM f = .error other := by
  induction xs with
  | nil => simp at member
  | cons y xs ih =>
    rw [List.mapM_cons]
    cases head : f y with
    | error other => exact ⟨other, rfl⟩
    | ok value =>
      rcases List.mem_cons.mp member with rfl | member
      · rw [fails] at head
        cases head
      · obtain ⟨other, raised⟩ := ih member
        exact ⟨other, by rw [raised]; rfl⟩

theorem foldlM_read {σ : Type} {f : σ → α → Except ε σ} {inv : List α → σ → Prop} {xs before : List α}
    {state last : σ} (start : inv before state)
    (keeps : ∀ before x state next, inv before state → f state x = .ok next → inv (before ++ [x]) next)
    (run : xs.foldlM f state = .ok last) : inv (before ++ xs) last := by
  induction xs generalizing before state with
  | nil =>
    obtain rfl := Except.ok.inj run
    rwa [List.append_nil]
  | cons x xs ih =>
    rw [List.foldlM_cons] at run
    obtain ⟨next, step, run⟩ := bind_eq_ok.mp run
    rw [List.append_cons]
    exact ih (keeps _ _ _ _ start step) run

theorem foldlM_ok {σ : Type} {f : σ → α → Except ε σ} {inv : List α → σ → Prop} {xs before : List α}
    {state : σ} (start : inv before state)
    (keeps : ∀ before x state next, inv before state → f state x = .ok next → inv (before ++ [x]) next)
    (goes : ∀ front x back state, xs = front ++ x :: back → inv (before ++ front) state →
      ∃ next, f state x = .ok next) : ∃ last, xs.foldlM f state = .ok last := by
  induction xs generalizing before state with
  | nil => exact ⟨state, rfl⟩
  | cons x xs ih =>
    obtain ⟨next, step⟩ := goes [] x xs state rfl (by rwa [List.append_nil])
    rw [List.foldlM_cons, step, ok_bind]
    refine ih (keeps _ _ _ _ start step) fun front y back state same holds => ?_
    rw [← List.append_cons] at holds
    exact goes (x :: front) y back state (by rw [same]; rfl) holds

theorem foldlM_flatten {σ : Type} (f : σ → α → Except ε σ) (lists : List (List α)) (state : σ) :
    lists.foldlM (fun state xs => xs.foldlM f state) state = lists.flatten.foldlM f state := by
  induction lists generalizing state with
  | nil => rfl
  | cons xs lists ih =>
    rw [List.foldlM_cons, List.flatten_cons, List.foldlM_append]
    exact congrArg _ (funext ih)

end Except

theorem item_ok {α : Type} {xs : List α} {index : Nat} (default : α) (within : index < xs.length) :
    item xs index = .ok (xs.getD index default) := by
  simp [item, within]

theorem item_error {α : Type} {xs : List α} {index : Nat} (outside : xs.length ≤ index) :
    item xs index = .error .indexError := by
  simp [item, outside]

theorem lastItem_ok {α : Type} {xs : List α} (default : α) (nonempty : xs ≠ []) :
    lastItem xs = .ok (xs.getLastD default) := by
  cases xs with
  | nil => exact absurd rfl nonempty
  | cons x xs => simp [lastItem, List.getLast?_cons]

theorem pyMod_ok {m : Int} (positive : 1 ≤ m) (x : Int) : pyMod x m = .ok (x % m) := by
  rw [pyMod, if_neg (by omega), Int.fmod_eq_emod_of_nonneg _ (by omega)]

theorem pyMod_some {mod : Int} (nonzero : mod ≠ 0) (x : Int) : ∃ y, pyMod x mod = .ok y := by
  rw [pyMod, if_neg nonzero]
  exact ⟨_, rfl⟩

section Draws

theorem returns_randint {low high value : Int} :
    (randint low high).Returns value ↔ low ≤ value ∧ value ≤ high := by
  unfold randint
  split
  · next nonempty =>
    constructor
    · rintro ⟨answer, admitted, returned⟩
      obtain rfl := Except.ok.inj returned
      exact admitted
    · intro within
      exact ⟨value, within, rfl⟩
  · next empty =>
    rw [Prog.returns_raise]
    exact ⟨False.elim, fun within => empty (Int.le_trans within.1 within.2)⟩

theorem raises_randint {low high : Int} {error : PyError} :
    (randint low high).Raises error ↔ high < low ∧ error = .valueError := by
  unfold randint
  split
  · next nonempty =>
    constructor
    · rintro ⟨answer, _, raised⟩
      cases raised
    · intro empty
      omega
  · next empty =>
    rw [Prog.raises_raise]
    exact ⟨fun same => ⟨by omega, same⟩, fun both => both.2⟩

theorem returns_choice {α : Type} {xs : List α} {x : α} : (choice xs).Returns x ↔ x ∈ xs := by
  unfold choice
  split
  · next nonempty =>
    rw [List.mem_iff_getElem?]
    constructor
    · rintro ⟨(index : Nat), within, found⟩
      have found := (Prog.returns_ofExcept _ _).mp found
      refine ⟨index, ?_⟩
      cases h : xs[index]? <;> simp_all [item]
    · rintro ⟨index, found⟩
      refine ⟨index, (List.getElem?_eq_some_iff.mp found).1, ?_⟩
      exact (Prog.returns_ofExcept _ _).mpr (by simp [item, found])
  · next empty =>
    rw [Prog.returns_raise, List.length_eq_zero_iff.mp (by omega : xs.length = 0)]
    simp

theorem safe_choice {α : Type} {xs : List α} (nonempty : xs ≠ []) : (choice xs).Safe := by
  rintro error raised
  rw [choice, dif_pos (List.length_pos_iff.mpr nonempty)] at raised
  obtain ⟨(index : Nat), (within : index < xs.length), raised⟩ := raised
  have failed := (Prog.raises_ofExcept _ _).mp raised
  simp [item, within] at failed

theorem pick_eq_map {α : Type} {xs : List α} {indices : List Nat} (default : α)
    (within : ∀ index ∈ indices, index < xs.length) :
    pick xs indices = indices.map fun index => xs.getD index default := by
  induction indices with
  | nil => rfl
  | cons index rest ih =>
    have here := within index (by simp)
    have later := ih fun i member => within i (List.mem_cons_of_mem _ member)
    simp_all [pick]

theorem pick_range {α : Type} (xs : List α) : pick xs (List.range xs.length) = xs := by
  apply List.ext_getElem?
  intro index
  rcases xs with _ | ⟨x, xs⟩
  · simp [pick]
  · rw [pick_eq_map x (by simp)]
    rw [List.getElem?_map]
    by_cases within : index < (x :: xs).length
    · rw [List.getElem?_range within, List.getElem?_eq_getElem within]
      simp [List.getElem?_eq_getElem within]
    · rw [List.getElem?_eq_none (Nat.not_lt.mp within), List.getElem?_eq_none]
      · rfl
      · simpa using within

theorem perm_of_returns_shuffle {α : Type} {xs ys : List α} (shuffled : (shuffle xs).Returns ys) :
    ys.Perm xs := by
  obtain ⟨order, admitted, returned⟩ := shuffled
  obtain rfl := Except.ok.inj returned
  exact (List.Perm.filterMap _ admitted).trans (List.Perm.of_eq (pick_range xs))

theorem returns_shuffle_self {α : Type} (xs : List α) : (shuffle xs).Returns xs :=
  ⟨List.range xs.length, List.Perm.refl _, congrArg Except.ok (pick_range xs).symm⟩

theorem safe_shuffle {α : Type} (xs : List α) : (shuffle xs).Safe := by
  rintro error ⟨_, _, raised⟩
  cases raised

theorem returns_sample {α : Type} {xs picked : List α} {count : Int}
    (returned : (sample xs count).Returns picked) :
    (picked.length : Int) = count ∧ picked ⊆ xs ∧ (xs.Nodup → picked.Nodup) := by
  unfold sample at returned
  split at returned
  · next enough =>
    obtain ⟨indices, ⟨length, distinct, within⟩, same⟩ := returned
    obtain rfl := Except.ok.inj same
    rcases xs with _ | ⟨x, xs⟩
    · have none : indices = [] := List.eq_nil_iff_forall_not_mem.mpr fun i member => by
        simpa using within i member
      subst none
      simp only [List.length_nil] at length
      exact ⟨by simp [pick]; omega, by simp [pick], by simp [pick]⟩
    · rw [pick_eq_map x within]
      refine ⟨by simp only [List.length_map]; omega, ?_, ?_⟩
      · intro y member
        obtain ⟨index, inside, rfl⟩ := List.mem_map.mp member
        simp only [List.getD_eq_getElem?_getD, List.getElem?_eq_getElem (within index inside),
          Option.getD_some, List.getElem_mem]
      · intro nodup
        refine distinct.map_on ?_
        intro i hi j hj same
        simp only [List.getD_eq_getElem?_getD, List.getElem?_eq_getElem (within i hi),
          List.getElem?_eq_getElem (within j hj), Option.getD_some] at same
        exact (nodup.getElem_inj_iff).mp same
  · exact absurd returned (by simp)

theorem raises_sample {α : Type} {xs : List α} {count : Int} {error : PyError}
    (raised : (sample xs count).Raises error) : count < 0 ∨ (xs.length : Int) < count := by
  unfold sample at raised
  split at raised
  · obtain ⟨_, _, raised⟩ := raised
    cases raised
  · next refused => omega

theorem sample_returns_some {α : Type} (xs : List α) (count : Nat) (enough : count ≤ xs.length) :
    (sample xs count).Returns (xs.take count) := by
  unfold sample
  rw [dif_pos ⟨by omega, by simpa using enough⟩]
  refine ⟨List.range count, ⟨by simp, List.nodup_range, ?_⟩, congrArg Except.ok ?_⟩
  · intro index member
    have := List.mem_range.mp member
    omega
  · have whole := congrArg (List.take count) (pick_range xs)
    rw [← whole, ← Nat.add_sub_of_le enough]
    generalize hd : xs.length - count = extra
    have within : ∀ index ∈ List.range count, index < xs.length := by
      intro index member
      have := List.mem_range.mp member
      omega
    rcases xs with _ | ⟨x, xs⟩
    · obtain rfl : count = 0 := by simpa using enough
      simp [pick]
    · rw [pick_eq_map x within, pick_eq_map x (by
        intro index member
        have := List.mem_range.mp member
        omega), ← List.map_take, List.take_range, Nat.min_eq_left (by omega)]

@[simp] theorem returns_seed {value : Int} {answer : Unit} : (seed value).Returns answer ↔ True :=
  ⟨fun _ => trivial, fun _ => ⟨(), trivial, rfl⟩⟩

@[simp] theorem raises_seed {value : Int} {error : PyError} : (seed value).Raises error ↔ False := by
  refine ⟨?_, False.elim⟩
  rintro ⟨_, _, raised⟩
  cases raised

theorem safe_shuffled {α β : Type} {xs : List α} {f : List α → Except PyError β}
    (each : ∀ ys, ys.Perm xs → ∃ value, f ys = .ok value) :
    Prog.Safe (do
      let ys ← shuffle xs
      .ofExcept (f ys)) := by
  intro error raised
  rw [Prog.raises_bind] at raised
  rcases raised with ⟨ys, shuffled, raised⟩ | raised
  · obtain ⟨value, same⟩ := each ys (perm_of_returns_shuffle shuffled)
    rw [Prog.raises_ofExcept, same] at raised
    cases raised
  · exact safe_shuffle _ error raised

theorem returns_shuffled {α β : Type} {xs : List α} {f : List α → Except PyError β} {value : β}
    (returned : Prog.Returns (do
      let ys ← shuffle xs
      .ofExcept (f ys)) value) : ∃ ys, ys.Perm xs ∧ f ys = .ok value := by
  obtain ⟨ys, shuffled, returned⟩ := (Prog.returns_bind _ _ _).mp returned
  exact ⟨ys, perm_of_returns_shuffle shuffled, (Prog.returns_ofExcept _ _).mp returned⟩

theorem shuffled_all {α β : Type} {xs : List α} {f : List α → Except PyError β} {p : β → Prop}
    (each : ∀ ys, ys.Perm xs → ∃ value, f ys = .ok value ∧ p value) :
    Prog.Safe (do
      let ys ← shuffle xs
      .ofExcept (f ys)) ∧
    ∀ value, Prog.Returns (do
      let ys ← shuffle xs
      .ofExcept (f ys)) value → p value := by
  refine ⟨safe_shuffled fun ys perm => ?_, fun value returned => ?_⟩
  · obtain ⟨value, made, _⟩ := each ys perm
    exact ⟨value, made⟩
  · obtain ⟨ys, perm, made⟩ := returns_shuffled returned
    obtain ⟨other, is, holds⟩ := each ys perm
    rw [made] at is
    rwa [Except.ok.inj is]

-- The least answer to everything: no draw is ever without one.
def leastAnswers : Prog.Machine random Unit where
  answer _
    | .randint low .. => low
    | .choice .. => (0 : Nat)
    | .sample _ count _ => List.range count
    | .shuffle size => List.range size
    | .seed _ => ()
  next _ _ := ()
  admitted
    | _, .randint _ _ nonempty => ⟨Int.le_refl _, nonempty⟩
    | _, .choice _ nonempty => nonempty
    | _, .sample _ _ enough => ⟨List.length_range, List.nodup_range, fun _ member =>
        Nat.lt_of_lt_of_le (List.mem_range.mp member) enough⟩
    | _, .shuffle _ => List.Perm.refl _
    | _, .seed _ => trivial

theorem exists_outcome {α : Type} (prog : Py α) : ∃ result, prog.Outcome result :=
  ⟨_, prog.run_outcome leastAnswers ()⟩

-- The machine's answers lead to a value that passes.
def leadsTo {α σ : Type} (machine : Prog.Machine random σ) (state : σ) (prog : Py α) (passes : α → Bool) : Bool :=
  match (prog.run machine state).1 with
  | .ok value => passes value
  | .error _ => false

theorem returns_of_leadsTo {α σ : Type} {machine : Prog.Machine random σ} {state : σ} {prog : Py α} {passes : α → Bool}
    (leads : leadsTo machine state prog passes = true) : ∃ value, prog.Returns value ∧ passes value = true := by
  rw [leadsTo] at leads
  split at leads
  · next value ran => exact ⟨value, Prog.returns_of_run ran, leads⟩
  · cases leads

theorem exists_returns {α : Type} {prog : Py α} (safe : prog.Safe) : ∃ value, prog.Returns value := by
  obtain ⟨result, outcome⟩ := exists_outcome prog
  rcases Prog.outcome_cases outcome with ⟨value, _, returned⟩ | ⟨error, _, raised⟩
  · exact ⟨value, returned⟩
  · exact absurd raised (safe error)

section Run

variable {α σ : Type}

theorem run_ofExcept (machine : Prog.Machine random σ) (result : Except PyError α) (state : σ) :
    (Prog.ofExcept result : Py α).run machine state = (result, state) := by
  cases result <;> rfl

theorem run_shuffle (machine : Prog.Machine random σ) (xs : List α) (state : σ) : ∃ ys later, ys.Perm xs ∧
    (shuffle xs).run machine state = (.ok ys, later) := by
  refine ⟨_, _, ?_, rfl⟩
  exact perm_of_returns_shuffle (@Prog.returns_of_run _ _ _ _ machine (shuffle xs) state _ rfl)

theorem run_shuffled_congr {xs : List α} {β : Type} {f g : List α → Except PyError β}
    (same : ∀ ys, ys.Perm xs → f ys = g ys) (machine : Prog.Machine random σ) (state : σ) :
    Prog.run machine (do
      let ys ← shuffle xs
      .ofExcept (f ys)) state =
    Prog.run machine (do
      let ys ← shuffle xs
      .ofExcept (g ys)) state := by
  obtain ⟨ys, later, perm, ran⟩ := run_shuffle machine xs state
  rw [Prog.run_bind, Prog.run_bind, ran]
  simp only [same ys perm]

end Run

end Draws

end CotCompression
