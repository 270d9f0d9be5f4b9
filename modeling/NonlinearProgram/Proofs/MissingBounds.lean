import NonlinearProgram.Proofs.CutBounds
import NonlinearProgram.Proofs.Prepared

/-!
# Bounds that are missing

Bounds are given as two lists of which each may be missing. What a missing list stands for is the
list whose entries have the size of the limit (`Bounds.filled`). A layout has terms of variables
only where both lists are there. Where exactly one is missing, the bounds of the other are dropped,
and the layout is that of the filled bounds exactly if there was nothing to drop.
-/

namespace NonlinearProgram

/-- The bounds with entries of the size of the limit for a list that is missing. -/
def Bounds.filled {α : Type} [Scalar α] (b : Bounds α) (n : ℕ) : Bounds α where
  lower := some (b.lower.getD (List.replicate n (-Box.limit)))
  upper := some (b.upper.getD (List.replicate n Box.limit))
  rowLower := b.rowLower
  rowUpper := b.rowUpper

section Scalar

variable {α σ : Type} [Scalar α]

/-! ## Terms of two lists

Two lists of bounds are walked side by side. An entry of the size of the limit gives no term, so a
list of such entries on one side leaves the terms of the other one. -/

namespace Term

theorem sides_eq_nil_iff {source : Source} {lo hi : α} :
    sides source lo hi false = [] ↔ bounded lo = false ∧ bounded hi = false := by
  rw [sides, if_neg (by simp), List.append_eq_nil_iff]
  cases bounded lo <;> cases bounded hi <;> simp

theorem ofBounds_eq_nil_iff {source : ℕ → Source} {index : ℕ} {lower upper : Point α}
    (h : lower.length = upper.length) :
    ofBounds source false index lower upper = [] ↔
      (∀ v ∈ lower, bounded v = false) ∧ ∀ v ∈ upper, bounded v = false := by
  induction lower generalizing index upper with
  | nil =>
    obtain rfl := List.length_eq_zero_iff.mp h.symm
    simp [ofBounds]
  | cons lo lower ih =>
    rcases upper with _ | ⟨hi, upper⟩
    · cases h
    · rw [ofBounds, List.append_eq_nil_iff, sides_eq_nil_iff, ih (Nat.succ.inj h),
        List.forall_mem_cons, List.forall_mem_cons]
      tauto

end Term

namespace MultiplierMethod

/-- What a solver was set up with is as long as it has to be. -/
theorem length_of_create {base : Config α} {n m : ℕ} {p : Problem α σ} {b : Bounds α}
    {solver : Solver α σ} {s s' : σ} (h : create base n m p b s = (.ok solver, s')) :
    (∀ lower, b.lower = some lower → lower.length = n) ∧
      ∀ upper, b.upper = some upper → upper.length = n := by
  obtain ⟨⟨⟩, s₁, hlower, h⟩ := Eval.bind_eq_ok.mp h
  obtain ⟨⟨⟩, s₂, hupper, -⟩ := Eval.bind_eq_ok.mp h
  rw [Eval.ofExcept_apply, Prod.mk.injEq, Check.count_eq_ok] at hlower hupper
  constructor
  · rintro lower hb
    rw [hb] at hlower
    exact hlower.1
  · rintro upper hb
    rw [hb] at hupper
    exact hupper.1

end MultiplierMethod

theorem Layout.project_of_rows {l : Layout α} (h : ∀ t ∈ l.terms, ∃ j, t.source = .row j)
    (x : Point α) : l.project x = x := foldl_enforce_rows h x

end Scalar

/-! ## The layout that is made

The two layouts have the same rows, and they differ in the terms of variables. With one list missing
the layout that is made has none, and that of the filled bounds has one for each bound in the other
list. -/

theorem Term.bounded_limit : Term.bounded (Box.limit : Float) = false := by decide +kernel

theorem Term.bounded_neg_limit : Term.bounded (-Box.limit : Float) = false := by decide +kernel

namespace Layout

variable {n : ℕ} {b : Bounds Float}

theorem ofBounds_eq_filled_iff (hlower : ∀ lower, b.lower = some lower → lower.length = n)
    (hupper : ∀ upper, b.upper = some upper → upper.length = n) :
    ofBounds n b = ofBounds n (b.filled n) ↔
      b.lower.isSome = b.upper.isSome ∨
        ∀ v ∈ b.lower.getD [] ++ b.upper.getD [], Term.bounded v = false := by
  have hkey : ∀ lower upper : Point Float, lower.length = n → upper.length = n →
      ((⟨Term.ofBounds .row true 0 b.rowLower b.rowUpper ++ [], n, b.rowLower.length⟩ :
          Layout Float) =
        ⟨Term.ofBounds .row true 0 b.rowLower b.rowUpper ++
          Term.ofBounds .coordinate false 0 lower upper, n, b.rowLower.length⟩ ↔
        (∀ v ∈ lower, Term.bounded v = false) ∧ ∀ v ∈ upper, Term.bounded v = false) := by
    intro lower upper hlow hup
    rw [← Term.ofBounds_eq_nil_iff (hlow.trans hup.symm), mk.injEq, List.append_cancel_left_eq,
      and_iff_left ⟨rfl, rfl⟩, eq_comm]
  have hreplicate : ∀ bound : Float, Term.bounded bound = false →
      ∀ v ∈ List.replicate n bound, Term.bounded v = false := fun bound h v hv ↦
    (List.mem_replicate.mp hv).2 ▸ h
  rcases b with ⟨_ | lower, _ | upper, rowLower, rowUpper⟩
  · refine iff_of_true ?_ (.inl rfl)
    exact (hkey _ _ List.length_replicate List.length_replicate).mpr
      ⟨hreplicate _ Term.bounded_neg_limit, hreplicate _ Term.bounded_limit⟩
  · refine (hkey _ upper List.length_replicate (hupper upper rfl)).trans ?_
    rw [and_iff_right (hreplicate _ Term.bounded_neg_limit), or_iff_right nofun]
    rfl
  · refine (hkey lower _ (hlower lower rfl) List.length_replicate).trans ?_
    rw [and_iff_left (hreplicate _ Term.bounded_limit), or_iff_right nofun]
    exact Iff.of_eq (congrArg (fun l ↦ ∀ v ∈ l, Term.bounded v = false) (List.append_nil _).symm)
  · exact iff_of_true rfl (.inl rfl)

end Layout

namespace MultiplierMethod

variable {σ : Type} {base : Config Float} {n m : ℕ} {p : Problem Float σ} {b : Bounds Float}
  {solver : Solver Float σ} {s s' : σ}

/-- **What the layout of a solver takes from its bounds.** It is the layout of the bounds with a
missing list filled in exactly if both lists are there, or none, or the one that is there has no
bound. Where one list is missing no term is one of a variable and the projection moves no point. -/
theorem layout_eq_filled_iff (h : create base n m p b s = (.ok solver, s')) :
    solver.layout = .ofBounds n b ∧
      (solver.layout = .ofBounds n (b.filled n) ↔
        b.lower.isSome = b.upper.isSome ∨
          ∀ v ∈ b.lower.getD [] ++ b.upper.getD [], Term.bounded v = false) ∧
      (b.lower.isSome ≠ b.upper.isSome →
        (∀ t ∈ solver.layout.terms, ∃ j, t.source = .row j) ∧
          ∀ x, solver.layout.project x = x) := by
  obtain ⟨hlower, hupper⟩ := length_of_create h
  obtain ⟨rfl, -⟩ := create_eq_ok h
  refine ⟨rfl, Layout.ofBounds_eq_filled_iff hlower hupper, fun hmissing ↦ ?_⟩
  have hrows : ∀ t ∈ (Layout.ofBounds n b).terms, ∃ j, t.source = .row j := by
    intro t ht
    rcases Layout.mem_terms_ofBounds ht with
      ⟨j, _, _, -, -, hmem⟩ | ⟨_, _, _, _, _, hl, hu, -, -, -⟩
    · exact ⟨j, Term.source_of_mem_sides hmem⟩
    · rw [hl, hu] at hmissing
      exact absurd rfl hmissing
  exact ⟨hrows, Layout.project_of_rows hrows⟩

/-- The objective `x` of one variable, without rows. -/
def lineProblem : Problem Float Unit where
  objective x := pure (x.coord 0)
  gradient _ := pure [1.0]
  constraints _ := pure []
  jacobian _ := pure ⟨1, []⟩
  intermediate _ := pure true
  note _ := pure ()

theorem layout_eq_filled_without_bound :
    let b : Bounds Float := ⟨some [-Box.limit], none, [], []⟩
    ∃ solver, create Config.standard 1 0 lineProblem b () = (.ok solver, ()) ∧
      solver.layout = .ofBounds 1 (b.filled 1) := by
  intro b
  have hcreate : create Config.standard 1 0 lineProblem b ()
      = (.ok ⟨lineProblem, .ofBounds 1 b, Config.standard⟩, ()) := rfl
  have hbound : ∀ v ∈ b.lower.getD [] ++ b.upper.getD [], Term.bounded v = false :=
    List.forall_mem_singleton.mpr Term.bounded_neg_limit
  exact ⟨_, hcreate, (layout_eq_filled_iff hcreate).2.1.mpr (.inr hbound)⟩

/-- A lower bound at zero without upper bounds is accepted and lost: minus one is not moved, where
the filled bounds move it to zero. -/
theorem layout_ne_filled_of_lower_only :
    let b : Bounds Float := ⟨some [0.0], none, [], []⟩
    ∃ solver, create Config.standard 1 0 lineProblem b () = (.ok solver, ()) ∧
      solver.layout ≠ .ofBounds 1 (b.filled 1) ∧
      ((solver.layout.project [-1.0]).coord 0 == -1.0) = true ∧
      (((Layout.ofBounds 1 (b.filled 1)).project [-1.0]).coord 0 == 0.0) = true := by
  intro b
  refine ⟨⟨lineProblem, .ofBounds 1 b, Config.standard⟩, rfl, fun heq ↦ ?_, by decide +kernel,
    by decide +kernel⟩
  have hempty := congrArg Layout.isEmpty heq
  exact absurd hempty (by decide +kernel)

end MultiplierMethod

end NonlinearProgram
