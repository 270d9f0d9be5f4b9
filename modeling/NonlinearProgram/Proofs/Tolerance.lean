import Mathlib.Data.List.Forall2
import NonlinearProgram.Proofs.FloatSign
import NonlinearProgram.Proofs.ReturnedPoint

/-!
# What a point within the tolerance satisfies

A run takes a point for feasible where the violation is within the tolerance. The violation is the
largest of the excesses, and of floating-point numbers an undefined distance has none that counts:
at an equality it is undefined too and is passed over, at an inequality it is replaced by zero. So a
term passes if its distance is within the tolerance or undefined (`Term.Passes`), and the violation
is within the tolerance exactly if all terms pass. The distances themselves are within it at the
same points, except where one of them is undefined and all others pass.

## Why floating-point numbers

The maximum of two numbers is the other one where one of them is undefined. This is a fact about
`Float` and not about scalars, so these statements are about `Float`; in exact arithmetic every
distance is defined and there is nothing to pass over.
-/

namespace NonlinearProgram

open FloatOrder

/-! ## One term

The excess of a defined distance is within a tolerance where the distance is, at an equality through
the absolute value and at an inequality through the larger of zero and the distance with its sign
changed. The excess of an undefined one is undefined or zero, and neither exceeds a tolerance. -/

namespace Term

section Within

variable {α : Type} [Scalar α] (tol : α) (t : Term α) (s : α)

/-- A distance is not in the forbidden direction by more than a tolerance. -/
def Within : Prop := if t.equality then Scalar.abs s ≤ tol else -tol ≤ s

/-- A distance is within a tolerance, or there is none. -/
def Passes : Prop := Scalar.isUndefined s = true ∨ t.Within tol s

instance : Decidable (t.Within tol s) := inferInstanceAs (Decidable (ite _ _ _))

instance : Decidable (t.Passes tol s) := inferInstanceAs (Decidable (_ ∨ _))

end Within

variable {tol : Float} {t : Term Float} {s : Float}

theorem Within.defined (h : t.Within tol s) : Scalar.isUndefined s = false := by
  rw [Within] at h
  split at h
  · rw [← isUndefined_abs]
    exact (defined_of_le h).1
  · exact (defined_of_le h).2

theorem excess_le_iff_within (htol : 0.0 ≤ tol) (hs : Scalar.isUndefined s = false) :
    Scalar.isUndefined (t.excess s) = false ∧ (t.excess s ≤ tol ↔ t.Within tol s) := by
  rw [excess, Within]
  rcases t.equality
  · have hneg : Scalar.isUndefined (-s) = false := (isUndefined_neg s).trans hs
    have hzero : Scalar.isUndefined (0.0 : Float) = false := (defined_of_le htol).1
    rw [if_neg Bool.false_ne_true, if_neg Bool.false_ne_true, max_le_iff hneg hzero,
      and_iff_left htol, neg_le_iff]
    exact ⟨isUndefined_max hneg hzero, Iff.rfl⟩
  · exact ⟨(isUndefined_abs s).trans hs, Iff.rfl⟩

theorem excess_le_of_undefined (htol : 0.0 ≤ tol) (hs : Scalar.isUndefined s = true) :
    Scalar.isUndefined (t.excess s) = false → t.excess s ≤ tol := by
  rw [excess]
  rcases t.equality
  · intro _
    have hneg : Scalar.isUndefined (-s) = true := (isUndefined_neg s).trans hs
    rwa [if_neg Bool.false_ne_true, max_of_undefined_left hneg (defined_of_le htol).1]
  · intro habs
    rw [if_pos rfl, show Scalar.isUndefined (Scalar.abs s) = true from
      (isUndefined_abs s).trans hs] at habs
    cases habs

theorem excess_le_iff_passes (htol : 0.0 ≤ tol) :
    (Scalar.isUndefined (t.excess s) = false → t.excess s ≤ tol) ↔ t.Passes tol s := by
  rw [Passes]
  rcases hs : Scalar.isUndefined s
  · obtain ⟨hdefined, hiff⟩ := excess_le_iff_within (t := t) htol hs
    simp [hdefined, hiff]
  · exact iff_of_true (excess_le_of_undefined htol hs) (.inl rfl)

end Term

/-! ## All terms

The terms and their distances are two lists in step, so both verdicts are `List.Forall₂` over them
and are compared term by term. -/

namespace Layout

variable {l : Layout Float} {values : List Float} {tol : Float}

theorem violation_le_iff_passes (hlength : values.length = l.size) :
    l.violation values ≤ tol ↔ 0.0 ≤ tol ∧ List.Forall₂ (Term.Passes tol) l.terms values := by
  rw [violation, ← List.map_uncurry_zip_eq_zipWith, foldl_max_le_iff (by decide +kernel),
    List.forall_mem_map, List.forall₂_iff_zip]
  refine and_congr_right fun htol ↦ ?_
  rw [and_iff_right (show l.terms.length = values.length from hlength.symm), Prod.forall]
  exact forall₂_congr fun t s ↦ forall_congr' fun _ ↦ Term.excess_le_iff_passes htol

theorem forall₂_within_iff {terms : List (Term Float)} :
    List.Forall₂ (Term.Within tol) terms values ↔
      List.Forall₂ (Term.Passes tol) terms values ∧
        ∀ s ∈ values, Scalar.isUndefined s = false := by
  constructor
  · intro h
    induction h with
    | nil => exact ⟨.nil, fun _ hs ↦ absurd hs List.not_mem_nil⟩
    | cons hwithin _ ih =>
      exact ⟨.cons (.inr hwithin) ih.1, List.forall_mem_cons.mpr ⟨hwithin.defined, ih.2⟩⟩
  · rintro ⟨h, hdefined⟩
    induction h with
    | nil => exact .nil
    | cons hpasses _ ih =>
      rw [List.forall_mem_cons] at hdefined
      obtain ⟨hs, hvalues⟩ := hdefined
      refine .cons (hpasses.resolve_left ?_) (ih hvalues)
      rw [hs]
      exact Bool.false_ne_true

end Layout

/-! ## Runs that report success -/

namespace MultiplierMethod

/-- A run that reports success had all terms pass at its last iterate. -/
theorem passes_of_status {σ : Type} {minimizer : Minimizer Float} {p : Problem Float σ}
    {c : Config Float} {l : Layout Float} {x y : Point Float} {info : Summary Float} {s s' : σ}
    (h : run minimizer p c l x s = (.ok (y, info), s'))
    (hstatus : info.status = 0 ∨ info.status = 1) :
    ∃ first its z rows, Completed minimizer p c l x s first its y info s' ∧
      z = (its.final c first).point ∧ l.HasRows p z rows ∧ y = l.project z ∧
      List.Forall₂ (Term.Passes c.violationTolerance) l.terms (l.values z rows) := by
  obtain ⟨first, its, hcompleted⟩ := exists_completed h
  obtain ⟨s₁, s₂, -, -, -, hfinish⟩ := hcompleted.ran
  obtain ⟨hy, -⟩ := finish_eq_ok.mp hfinish
  obtain ⟨rows, hrows, hle⟩ := hcompleted.violation_le hstatus
  exact ⟨first, its, _, rows, hcompleted, rfl, hrows, hy,
    ((Layout.violation_le_iff_passes (List.length_map _)).mp hle).2⟩

/-- **What a verdict of feasibility says.** The violation is within a tolerance if every term
passes, so the verdict is the one on the distances unless one of them is undefined and all others
are within the tolerance. A run that reports success made this verdict at its last iterate. -/
theorem feasible_iff_passes {l : Layout Float} {values : List Float} {tol : Float}
    (hlength : values.length = l.size) (htol : 0.0 ≤ tol) :
    (l.violation values ≤ tol ↔ List.Forall₂ (Term.Passes tol) l.terms values) ∧
      ((l.violation values ≤ tol ↔ List.Forall₂ (Term.Within tol) l.terms values) ↔
        (∀ s ∈ values, Scalar.isUndefined s = false) ∨
          ¬List.Forall₂ (Term.Passes tol) l.terms values) ∧
      ∀ (σ : Type) (minimizer : Minimizer Float) (p : Problem Float σ) (c : Config Float)
        (x y : Point Float) (info : Summary Float) (s s' : σ),
        run minimizer p c l x s = (.ok (y, info), s') → info.status = 0 ∨ info.status = 1 →
        ∃ first its z rows, Completed minimizer p c l x s first its y info s' ∧
          z = (its.final c first).point ∧ l.HasRows p z rows ∧ y = l.project z ∧
          List.Forall₂ (Term.Passes c.violationTolerance) l.terms (l.values z rows) := by
  have hpasses : l.violation values ≤ tol ↔ List.Forall₂ (Term.Passes tol) l.terms values := by
    rw [Layout.violation_le_iff_passes hlength, and_iff_right htol]
  refine ⟨hpasses, ?_, fun _ _ _ _ _ _ _ _ _ h hstatus ↦ passes_of_status h hstatus⟩
  rw [hpasses, Layout.forall₂_within_iff]
  constructor
  · intro hiff
    by_cases hall : List.Forall₂ (Term.Passes tol) l.terms values
    · exact .inl (hiff.mp hall).2
    · exact .inr hall
  · rintro (hdefined | hnot)
    · exact (and_iff_left hdefined).symm
    · exact iff_of_false hnot fun h ↦ hnot h.1

/-- A row that exceeds four by a quarter passes, and one that exceeds it by one does not. -/
theorem feasible_iff_passes_row :
    let l : Layout Float := .ofBounds 1 ⟨none, none, [0.0], [4.0]⟩
    l.violation (l.values [0.0] [4.25]) ≤ 0.5 ∧ ¬l.violation (l.values [0.0] [5.0]) ≤ 0.5 := by
  intro l
  have hlength : ∀ rows : Point Float, (l.values [0.0] rows).length = l.size := fun rows ↦
    List.length_map _
  have htol : (0.0 : Float) ≤ 0.5 := by decide +kernel
  refine ⟨(feasible_iff_passes (hlength [4.25]) htol).1.mpr (by decide +kernel), fun hle ↦ ?_⟩
  exact absurd ((feasible_iff_passes (hlength [5.0]) htol).1.mp hle) (by decide +kernel)

/-- The objective `x * x` with the row `√(x - 1)`, which is undefined below one. -/
def undefinedRow : Problem Float Unit where
  objective x := pure (Scalar.square (x.coord 0))
  gradient x := pure [2.0 * x.coord 0]
  constraints x := pure [Scalar.sqrt (x.coord 0 - 1.0)]
  jacobian x := pure ⟨1, [[0.5 / Scalar.sqrt (x.coord 0 - 1.0)]]⟩
  intermediate _ := pure true
  note _ := pure ()

/-- From zero, where the row is undefined, a run reports success at zero. The violation there is
within the tolerance and the distance is not. -/
theorem succeeded_at_undefinedRow :
    let c : Config Float := { Config.standard with iterationLimit := 1 }
    let l : Layout Float := .ofBounds 1 ⟨none, none, [0.0], [Scalar.infinity]⟩
    (run LimitedMemory.minimizer undefinedRow c l [0.0] ()).1.toOption.map (fun answer ↦
        let values := l.values answer.1 answer.2.rows
        (answer.2.status, values.map Scalar.isUndefined,
          decide (l.violation values ≤ c.violationTolerance),
          decide (List.Forall₂ (Term.Within c.violationTolerance) l.terms values)))
      = some (0, [true], true, false) := by
  decide +kernel

end MultiplierMethod

end NonlinearProgram
