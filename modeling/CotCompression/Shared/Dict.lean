import Mathlib.Data.List.Nodup
import Mathlib.Tactic.Common

set_option autoImplicit false

/-- A map whose keys stand in the order they came in. -/
structure Dict (κ ν : Type) where
  entries : List (κ × ν)
  distinct : (entries.map Prod.fst).Nodup

namespace Dict

variable {κ ν : Type}

def empty : Dict κ ν := ⟨[], List.nodup_nil⟩

def keys (d : Dict κ ν) : List κ := d.entries.map Prod.fst

@[simp] theorem keys_empty : (empty : Dict κ ν).keys = [] := rfl

variable [DecidableEq κ]

def get? (d : Dict κ ν) (key : κ) : Option ν := d.entries.lookup key

/-- A key that is there keeps its place, a new one comes last. -/
def setEntry (key : κ) (value : ν) : List (κ × ν) → List (κ × ν)
  | [] => [(key, value)]
  | entry :: rest => if entry.1 = key then (key, value) :: rest else entry :: setEntry key value rest

theorem setEntry_keys (key : κ) (value : ν) (entries : List (κ × ν)) :
    (setEntry key value entries).map Prod.fst =
      if key ∈ entries.map Prod.fst then entries.map Prod.fst else entries.map Prod.fst ++ [key] := by
  induction entries with
  | nil => rfl
  | cons entry rest ih =>
    rw [setEntry]
    by_cases same : entry.1 = key
    · simp [same]
    · simp only [if_neg same, List.map_cons, ih, List.mem_cons, Ne.symm same, false_or]
      split <;> rfl

theorem setEntry_new {key : κ} {entries : List (κ × ν)} (new : key ∉ entries.map Prod.fst) (value : ν) :
    setEntry key value entries = entries ++ [(key, value)] := by
  induction entries with
  | nil => rfl
  | cons entry rest ih =>
    rw [List.map_cons, List.mem_cons, not_or] at new
    rw [setEntry, if_neg (Ne.symm new.1), ih new.2]
    rfl

def set (d : Dict κ ν) (key : κ) (value : ν) : Dict κ ν where
  entries := setEntry key value d.entries
  distinct := by
    rw [setEntry_keys]
    split
    · exact d.distinct
    · next new => exact List.nodup_append.mpr ⟨d.distinct, List.nodup_singleton key, by grind⟩

theorem get?_set (d : Dict κ ν) (key other : κ) (value : ν) :
    (d.set key value).get? other = if other = key then some value else d.get? other := by
  have entries (list : List (κ × ν)) : (setEntry key value list).lookup other =
      if other = key then some value else list.lookup other := by
    induction list with
    | nil =>
      simp only [setEntry, List.lookup_cons, List.lookup_nil]
      split <;> simp_all
    | cons entry rest ih =>
      by_cases same : entry.1 = key
      · rw [setEntry, if_pos same, List.lookup_cons, List.lookup_cons, same]
        grind
      · rw [setEntry, if_neg same, List.lookup_cons, List.lookup_cons, ih]
        grind
  exact entries d.entries

theorem mem_keys_set {d : Dict κ ν} {key other : κ} {value : ν} :
    other ∈ (d.set key value).keys ↔ other = key ∨ other ∈ d.keys := by
  have keys : (d.set key value).keys = if key ∈ d.keys then d.keys else d.keys ++ [key] :=
    setEntry_keys key value d.entries
  rw [keys]
  split <;> grind

theorem get?_eq_some {d : Dict κ ν} {key : κ} {value : ν} :
    d.get? key = some value ↔ (key, value) ∈ d.entries := by
  obtain ⟨entries, distinct⟩ := d
  rw [get?]
  induction entries with
  | nil => simp
  | cons entry rest ih =>
    obtain ⟨new, distinct⟩ := List.nodup_cons.mp distinct
    have ih := ih distinct
    rw [List.lookup_cons]
    by_cases same : key = entry.1
    · subst same
      have absent : (entry.1, value) ∉ rest := fun member => new (List.mem_map.mpr ⟨_, member, rfl⟩)
      grind
    · grind

theorem mem_keys {d : Dict κ ν} {key : κ} : key ∈ d.keys ↔ ∃ value, d.get? key = some value := by
  simp only [keys, List.mem_map, get?_eq_some]
  grind

def getD (d : Dict κ ν) (key : κ) (default : ν) : ν := (d.get? key).getD default

/-- A read that puts the default in where the key is missing. -/
def touch (d : Dict κ ν) (key : κ) (default : ν) : Dict κ ν :=
  if key ∈ d.keys then d else d.set key default

theorem getD_set (d : Dict κ ν) (key other : κ) (value default : ν) :
    (d.set key value).getD other default = if other = key then value else d.getD other default := by
  rw [getD, get?_set]
  split <;> rfl

theorem getD_touch (d : Dict κ ν) (key other : κ) (default : ν) :
    (d.touch key default).getD other default = d.getD other default := by
  rw [touch]
  split
  · rfl
  · next missing =>
    rw [getD_set]
    split
    · next same =>
      have absent : d.get? other = none := by
        rw [← same, mem_keys] at missing
        exact Option.eq_none_iff_forall_ne_some.mpr fun value found => missing ⟨value, found⟩
      rw [getD, absent, Option.getD_none]
    · rfl

theorem mem_keys_touch {d : Dict κ ν} {key other : κ} {default : ν} :
    other ∈ (d.touch key default).keys ↔ other = key ∨ other ∈ d.keys := by
  rw [touch]
  split
  · next present => exact ⟨.inr, fun either => either.elim (fun same => same ▸ present) id⟩
  · exact mem_keys_set

theorem filter_entries {d : Dict κ ν} {p : κ × ν → Bool} {key : κ} {value : ν} (found : d.get? key = some value)
    (only : ∀ entry ∈ d.entries, p entry = true ↔ entry.1 = key) : d.entries.filter p = [(key, value)] := by
  rw [get?_eq_some] at found
  obtain ⟨entries, distinct⟩ := d
  induction entries with
  | nil => simp at found
  | cons entry rest ih =>
    obtain ⟨new, distinct⟩ := List.nodup_cons.mp distinct
    obtain ⟨here, only⟩ := List.forall_mem_cons.mp only
    rcases List.mem_cons.mp found with same | found
    · have holds : p entry = true := here.mpr (congrArg Prod.fst same).symm
      rw [← same] at new
      have others : rest.filter p = [] := by
        rw [List.filter_eq_nil_iff]
        intro other member holds
        exact new (List.mem_map.mpr ⟨other, member, (only other member).mp holds⟩)
      exact (List.filter_cons_of_pos holds).trans (by rw [others, same])
    · have off : ¬ p entry = true := fun holds => new (List.mem_map.mpr ⟨_, found, (here.mp holds).symm⟩)
      rw [List.filter_cons, if_neg off]
      exact ih distinct found only

end Dict
