import Mathlib.Algebra.BigOperators.Group.List.Lemmas
import CotCompression.Shared.Dict

set_option autoImplicit false

-- Values gathered key by key, in maps of maps.
namespace Dict

section Updates

variable {κ ν μ α : Type} [DecidableEq κ]

/-- What a defaultdict does when the entry of a key is changed. -/
def update (d : Dict κ ν) (key : κ) (default : ν) (change : ν → ν) : Dict κ ν :=
  d.set key (change (d.getD key default))

theorem getD_update (d : Dict κ ν) (key other : κ) (default : ν) (change : ν → ν) :
    (d.update key default change).getD other default =
      if other = key then change (d.getD other default) else d.getD other default := by
  rw [update, getD_set]
  split
  · next same => rw [same]
  · rfl

theorem get?_of_getD {d : Dict κ ν} {key : κ} {default value : ν} (found : d.getD key default = value)
    (other : value ≠ default) : d.get? key = some value := by
  rw [getD] at found
  cases is : d.get? key with
  | none => exact absurd (by rw [← found, is, Option.getD_none]) other
  | some seen => rw [← found, is, Option.getD_some]

theorem getD_empty (key : κ) (default : ν) : (empty : Dict κ ν).getD key default = default := rfl

def collect (key : α → κ) (value : α → ν) (items : List α) (d : Dict κ (List ν)) : Dict κ (List ν) :=
  items.foldl (fun d item => d.update (key item) [] (· ++ [value item])) d

variable {key : α → κ} {value : α → ν}

theorem getD_collect (items : List α) (d : Dict κ (List ν)) (other : κ) :
    (collect key value items d).getD other [] =
      d.getD other [] ++ (items.filter fun item => decide (key item = other)).map value := by
  induction items generalizing d with
  | nil => simp [collect]
  | cons item items ih =>
    rw [collect, List.foldl_cons, ← collect, ih, getD_update]
    by_cases same : key item = other
    · simp [same]
    · simp [same, Ne.symm same]

theorem mem_keys_collect {items : List α} {d : Dict κ (List ν)} {other : κ} :
    other ∈ (collect key value items d).keys ↔ other ∈ d.keys ∨ ∃ item ∈ items, key item = other := by
  induction items generalizing d with
  | nil => simp [collect]
  | cons item items ih =>
    rw [collect, List.foldl_cons, ← collect, ih, update, mem_keys_set, List.exists_mem_cons_iff]
    tauto

def mapValues (f : ν → μ) (d : Dict κ ν) : Dict κ μ where
  entries := d.entries.map fun entry => (entry.1, f entry.2)
  distinct := by
    rw [List.map_map]
    exact d.distinct

omit [DecidableEq κ] in
@[simp] theorem keys_mapValues (f : ν → μ) (d : Dict κ ν) : (d.mapValues f).keys = d.keys := by
  rw [keys, mapValues, List.map_map]
  rfl

theorem lookup_mapValues (f : ν → μ) (entries : List (κ × ν)) (key : κ) :
    (entries.map fun entry => (entry.1, f entry.2)).lookup key = (entries.lookup key).map f := by
  induction entries with
  | nil => rfl
  | cons entry entries ih =>
    rw [List.map_cons, List.lookup_cons, List.lookup_cons, ih]
    split <;> rfl

theorem get?_mapValues (f : ν → μ) (d : Dict κ ν) (key : κ) : (d.mapValues f).get? key = (d.get? key).map f :=
  lookup_mapValues f d.entries key

def filterValues (keep : ν → Bool) (d : Dict κ ν) : Dict κ ν where
  entries := d.entries.filter fun entry => keep entry.2
  distinct := d.distinct.sublist (List.filter_sublist.map _)

theorem get?_filterValues {keep : ν → Bool} {d : Dict κ ν} {key : κ} {value : ν} :
    (d.filterValues keep).get? key = some value ↔ d.get? key = some value ∧ keep value = true := by
  rw [get?_eq_some, get?_eq_some]
  exact List.mem_filter

theorem filter_flatMap {β : Type} {d : Dict κ ν} {made : κ × ν → List β} {keyOf : β → κ} {key : κ} {value : ν}
    (under : ∀ entry, ∀ b ∈ made entry, keyOf b = entry.1) (found : d.get? key = some value) :
    (d.entries.flatMap made).filter (fun b => decide (keyOf b = key)) = made (key, value) := by
  have each (entry : κ × ν) : (made entry).filter (fun b => decide (keyOf b = key)) =
      if entry.1 = key then made entry else [] := by
    split
    · next same => exact List.filter_eq_self.mpr fun b member => decide_eq_true ((under entry b member).trans same)
    · next other =>
      exact List.filter_eq_nil_iff.mpr fun b member is =>
        other ((under entry b member).symm.trans (of_decide_eq_true is))
  have only := filter_entries found (p := fun entry => decide (entry.1 = key)) fun entry _ => decide_eq_true_iff
  rw [List.filter_flatMap, ← List.flatMap_singleton made (key, value), ← only]
  simp only [each]
  induction d.entries with
  | nil => rfl
  | cons entry entries ih =>
    rw [List.flatMap_cons, ih, List.filter_cons]
    by_cases same : entry.1 = key <;> simp [same]

end Updates

section Nested

variable {κ υ ν α : Type} [DecidableEq κ] [DecidableEq υ]

def nest (outer : α → κ) (inner : α → υ) (init : ν) (change : α → ν → ν) (items : List α)
    (d : Dict κ (Dict υ ν)) : Dict κ (Dict υ ν) :=
  items.foldl (fun d item => d.update (outer item) .empty fun under =>
    under.update (inner item) init (change item)) d

variable {outer : α → κ} {inner : α → υ} {init : ν} {change : α → ν → ν}

theorem getD_nest (items : List α) (d : Dict κ (Dict υ ν)) (first : κ) (second : υ) :
    ((nest outer inner init change items d).getD first .empty).getD second init =
      (items.filter fun item => decide (outer item = first ∧ inner item = second)).foldl
        (fun value item => change item value) ((d.getD first .empty).getD second init) := by
  induction items generalizing d with
  | nil => rfl
  | cons item items ih =>
    rw [nest, List.foldl_cons, ← nest, ih, getD_update]
    by_cases one : outer item = first
    · rw [if_pos one.symm, getD_update]
      by_cases two : inner item = second
      · simp [one, two]
      · simp [two, Ne.symm two]
    · simp [one, Ne.symm one]

theorem mem_keys_nest {items : List α} {d : Dict κ (Dict υ ν)} {first : κ} {second : υ} :
    second ∈ ((nest outer inner init change items d).getD first .empty).keys ↔
      second ∈ (d.getD first .empty).keys ∨ ∃ item ∈ items, outer item = first ∧ inner item = second := by
  induction items generalizing d with
  | nil => simp [nest]
  | cons item items ih =>
    rw [nest, List.foldl_cons, ← nest, ih, getD_update, List.exists_mem_cons_iff]
    by_cases one : outer item = first
    · rw [if_pos one.symm, update, mem_keys_set]
      tauto
    · rw [if_neg (Ne.symm one)]
      tauto

omit [DecidableEq υ] in
theorem get?_nested {d : Dict κ (Dict υ ν)} {first : κ} {second : υ} (member : second ∈ (d.getD first .empty).keys) :
    d.get? first = some (d.getD first .empty) := by
  rw [getD] at member ⊢
  cases found : d.get? first with
  | none => simp [found] at member
  | some under => rfl

end Nested

section Sums

variable {κ α M : Type} [DecidableEq κ] [AddCommMonoid M]

theorem sum_single {keys : List κ} (distinct : keys.Nodup) {only : κ} (known : only ∈ keys) (amount : M) :
    (keys.map fun key => if only = key then amount else 0).sum = amount := by
  induction keys with
  | nil => cases known
  | cons first keys ih =>
    obtain ⟨new, distinct⟩ := List.nodup_cons.mp distinct
    rw [List.map_cons, List.sum_cons]
    by_cases same : only = first
    · have none : (keys.map fun key => if only = key then amount else 0) = keys.map fun _ => 0 :=
        List.map_congr_left fun key member => if_neg fun is => new (by rwa [← same, is])
      rw [if_pos same, none]
      simp
    · rw [if_neg same, zero_add, ih distinct ((List.mem_cons.mp known).resolve_left same)]

theorem sum_groups {keys : List κ} (distinct : keys.Nodup) {key : α → κ} (amount : α → M) (items : List α)
    (known : ∀ item ∈ items, key item ∈ keys) :
    (keys.map fun other => ((items.filter fun item => decide (key item = other)).map amount).sum).sum =
      (items.map amount).sum := by
  induction items with
  | nil => simp
  | cons item items ih =>
    obtain ⟨here, known⟩ := List.forall_mem_cons.mp known
    have split (other : κ) : (((item :: items).filter fun item => decide (key item = other)).map amount).sum =
        (if key item = other then amount item else 0) +
          ((items.filter fun item => decide (key item = other)).map amount).sum := by
      by_cases same : key item = other <;> simp [same]
    simp only [split, List.sum_map_add, sum_single distinct here, ih known, List.map_cons, List.sum_cons]

end Sums

end Dict
