import Mathlib.Algebra.Group.Basic
import Mathlib.Algebra.Order.Group.Int
import Mathlib.Data.Int.ModEq
import Mathlib.Tactic.Ring

set_option autoImplicit false

/-- The map x ↦ slope * x + intercept. -/
@[ext] structure Affine (R : Type) where
  slope : R
  intercept : R
  deriving DecidableEq

namespace Affine

section Monoid

variable {R : Type} [CommRing R]

def apply (f : Affine R) (x : R) : R := f.slope * x + f.intercept

-- `f * g` applies `g` first.
instance : Mul (Affine R) := ⟨fun f g => ⟨f.slope * g.slope, f.slope * g.intercept + f.intercept⟩⟩

instance : One (Affine R) := ⟨⟨1, 0⟩⟩

@[simp] theorem mul_slope (f g : Affine R) : (f * g).slope = f.slope * g.slope := rfl

@[simp] theorem mul_intercept (f g : Affine R) :
    (f * g).intercept = f.slope * g.intercept + f.intercept := rfl

@[simp] theorem one_slope : (1 : Affine R).slope = 1 := rfl

@[simp] theorem one_intercept : (1 : Affine R).intercept = 0 := rfl

instance : Monoid (Affine R) where
  mul_assoc f g h := by ext <;> simp <;> ring
  one_mul f := by ext <;> simp
  mul_one f := by ext <;> simp

@[simp] theorem one_apply (x : R) : (1 : Affine R).apply x = x := by simp [apply]

theorem mul_apply (f g : Affine R) (x : R) : (f * g).apply x = f.apply (g.apply x) := by
  simp only [apply, mul_slope, mul_intercept]
  ring

def composed (steps : List (Affine R)) : Affine R := steps.foldl (fun done step => step * done) 1

@[simp] theorem composed_nil : composed ([] : List (Affine R)) = 1 := rfl

theorem foldl_composed (steps : List (Affine R)) (done : Affine R) :
    steps.foldl (fun done step => step * done) done = composed steps * done := by
  induction steps generalizing done with
  | nil => simp
  | cons step steps ih =>
    rw [composed, List.foldl_cons, List.foldl_cons, ih, ih, mul_one, mul_assoc]

theorem composed_cons (step : Affine R) (steps : List (Affine R)) :
    composed (step :: steps) = composed steps * step := by
  rw [composed, List.foldl_cons, foldl_composed, mul_one]

theorem composed_append (first second : List (Affine R)) :
    composed (first ++ second) = composed second * composed first := by
  rw [composed, List.foldl_append, foldl_composed]
  rfl

theorem composed_singleton (step : Affine R) : composed [step] = step := by
  rw [composed_cons, composed_nil, one_mul]

end Monoid

def Congr (m : ℤ) (f g : Affine ℤ) : Prop :=
  f.slope ≡ g.slope [ZMOD m] ∧ f.intercept ≡ g.intercept [ZMOD m]

theorem Congr.refl (m : ℤ) (f : Affine ℤ) : Congr m f f := ⟨rfl, rfl⟩

theorem Congr.symm {m : ℤ} {f g : Affine ℤ} (h : Congr m f g) : Congr m g f := ⟨h.1.symm, h.2.symm⟩

theorem Congr.trans {m : ℤ} {f g h : Affine ℤ} (first : Congr m f g) (second : Congr m g h) :
    Congr m f h :=
  ⟨first.1.trans second.1, first.2.trans second.2⟩

theorem Congr.mul {m : ℤ} {f f' g g' : Affine ℤ} (left : Congr m f f') (right : Congr m g g') :
    Congr m (f * g) (f' * g') :=
  ⟨left.1.mul right.1, (left.1.mul right.2).add left.2⟩

theorem Congr.apply {m : ℤ} {f g : Affine ℤ} (h : Congr m f g) {x y : ℤ} (same : x ≡ y [ZMOD m]) :
    f.apply x ≡ g.apply y [ZMOD m] :=
  (h.1.mul same).add h.2

structure IsCanonical (m : ℤ) (f : Affine ℤ) : Prop where
  slope_nonneg : 0 ≤ f.slope
  slope_lt : f.slope < m
  intercept_gt : m / 2 - m < f.intercept
  intercept_le : f.intercept ≤ m / 2

def canonical (m : ℤ) (f : Affine ℤ) : Affine ℤ :=
  ⟨f.slope.fmod m, if m / 2 < f.intercept.fmod m then f.intercept.fmod m - m else f.intercept.fmod m⟩

theorem fmod_modEq (x m : ℤ) : x.fmod m ≡ x [ZMOD m] := by
  rw [Int.fmod_def]
  exact Int.modEq_iff_dvd.mpr ⟨x.fdiv m, by ring⟩

theorem canonical_congr (m : ℤ) (f : Affine ℤ) : Congr m (canonical m f) f := by
  refine ⟨fmod_modEq _ _, ?_⟩
  simp only [canonical]
  split
  · exact (Int.sub_modulus_modEq_iff.mpr rfl).trans (fmod_modEq _ _)
  · exact fmod_modEq _ _

theorem canonical_isCanonical {m : ℤ} (positive : 0 < m) (f : Affine ℤ) :
    IsCanonical m (canonical m f) := by
  have lower := Int.fmod_nonneg_of_pos f.intercept positive
  have upper := Int.fmod_lt_of_pos f.intercept positive
  constructor
  · exact Int.fmod_nonneg_of_pos _ positive
  · exact Int.fmod_lt_of_pos _ positive
  · simp only [canonical]
    split <;> omega
  · simp only [canonical]
    split <;> omega

theorem fmod_eq_of_modEq {m x y : ℤ} (same : x ≡ y [ZMOD m]) : x.fmod m = y.fmod m := by
  obtain ⟨k, difference⟩ := same.dvd
  rw [show y = x + m * k by omega, Int.add_mul_fmod_self_left]

theorem canonical_eq_iff {m : ℤ} {f g : Affine ℤ} : canonical m f = canonical m g ↔ Congr m f g := by
  constructor
  · intro same
    exact (canonical_congr m f).symm.trans (same ▸ canonical_congr m g)
  · rintro ⟨slopes, intercepts⟩
    rw [canonical, canonical, fmod_eq_of_modEq slopes, fmod_eq_of_modEq intercepts]

theorem eq_of_modEq_of_lt {m x y : ℤ} (same : x ≡ y [ZMOD m]) (above : x - y < m) (below : y - x < m) :
    x = y := by
  have difference := Int.eq_zero_of_abs_lt_dvd same.symm.dvd (abs_lt.mpr ⟨by omega, above⟩)
  omega

theorem IsCanonical.eq_of_congr {m : ℤ} {f g : Affine ℤ} (hf : IsCanonical m f) (hg : IsCanonical m g)
    (same : Congr m f g) : f = g := by
  obtain ⟨f0, f1, f2, f3⟩ := hf
  obtain ⟨g0, g1, g2, g3⟩ := hg
  ext
  · exact eq_of_modEq_of_lt same.1 (by omega) (by omega)
  · exact eq_of_modEq_of_lt same.2 (by omega) (by omega)

structure Covers (m : ℤ) (steps : List (Affine ℤ)) (f : Affine ℤ) : Prop where
  canonical : IsCanonical m f
  congr : Congr m f (composed steps)

theorem Covers.single {m : ℤ} (positive : 0 < m) (step : Affine ℤ) :
    Covers m [step] (Affine.canonical m step) :=
  ⟨canonical_isCanonical positive step, by
    rw [composed_singleton]
    exact canonical_congr m step⟩

theorem Covers.append {m : ℤ} (positive : 0 < m) {first second : List (Affine ℤ)} {f g : Affine ℤ}
    (left : Covers m first f) (right : Covers m second g) :
    Covers m (first ++ second) (Affine.canonical m (g * f)) := by
  refine ⟨canonical_isCanonical positive _, ?_⟩
  rw [composed_append]
  exact (canonical_congr m _).trans (right.congr.mul left.congr)

theorem Covers.append_step {m : ℤ} (positive : 0 < m) {steps : List (Affine ℤ)} {f : Affine ℤ}
    (covers : Covers m steps f) (step : Affine ℤ) :
    Covers m (steps ++ [step]) (Affine.canonical m (step * f)) := by
  refine ⟨canonical_isCanonical positive _, ?_⟩
  rw [composed_append, composed_singleton]
  exact (canonical_congr m _).trans ((Congr.refl m step).mul covers.congr)

theorem Covers.prepend_step {m : ℤ} (positive : 0 < m) {steps : List (Affine ℤ)} {f : Affine ℤ}
    (covers : Covers m steps f) (step : Affine ℤ) :
    Covers m (step :: steps) (Affine.canonical m (f * step)) := by
  refine ⟨canonical_isCanonical positive _, ?_⟩
  rw [composed_cons]
  exact (canonical_congr m _).trans (covers.congr.mul (Congr.refl m step))

theorem Covers.unique {m : ℤ} {steps : List (Affine ℤ)} {f g : Affine ℤ} (hf : Covers m steps f)
    (hg : Covers m steps g) : f = g :=
  hf.canonical.eq_of_congr hg.canonical (hf.congr.trans hg.congr.symm)

/-- Reductions of a row of forms, wherever it is split. -/
inductive Folded (m : ℤ) : List (Affine ℤ) → Affine ℤ → Prop
  | single (f : Affine ℤ) : Folded m [f] f
  | split {left right : List (Affine ℤ)} {f g : Affine ℤ} (before : Folded m left f) (after : Folded m right g) :
      Folded m (left ++ right) (canonical m (g * f))

theorem Folded.covers {m : ℤ} (positive : 0 < m) {forms : List (Affine ℤ)} {f : Affine ℤ}
    (folded : Folded m forms f) (normal : ∀ form ∈ forms, IsCanonical m form) : Covers m forms f := by
  induction folded with
  | single f => exact ⟨normal f (by simp), by rw [composed_singleton]; exact .refl m f⟩
  | split _ _ ihLeft ihRight =>
    obtain ⟨before, after⟩ := List.forall_mem_append.mp normal
    exact (ihLeft before).append positive (ihRight after)

theorem composed_flatten {m : ℤ} {blocks : List (List (Affine ℤ))} {forms : List (Affine ℤ)}
    (each : List.Forall₂ (fun block form => Congr m form (composed block)) blocks forms) :
    Congr m (composed forms) (composed blocks.flatten) := by
  induction each with
  | nil => exact .refl m _
  | cons here _ ih =>
    rw [List.flatten_cons, composed_cons, composed_append]
    exact ih.mul here

end Affine
