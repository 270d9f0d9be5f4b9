import NonlinearProgram.Proofs.Certificate
import NonlinearProgram.Proofs.Projection

/-!
# The point that is returned

A successful run certifies its last iterate and returns the projection of it onto the variable
bounds, with the rows evaluated there. The two are not the same point where a bound is violated
within the tolerance, and a row that reacts strongly to the projection can exceed the tolerance at
the point that is returned.

Where the projection moves nothing, the certificate is one of the point that is returned. In exact
arithmetic no coordinate moves by more than the tolerance and all variable bounds hold afterwards,
so that only a row can exceed it.

## The last iterate

The certified point is that of the last iteration, or the start where there was none. It is found in
the completed history of the run (`MultiplierMethod.Completed`), whose finish projects it; nothing
else is known of it, and in floating-point numbers it need not be near the point that is returned.
-/

namespace NonlinearProgram

/-- The answers of the problem depend on the point alone. -/
structure Problem.Pure {α σ : Type} (p : Problem α σ) : Prop where
  objective : ∀ x s s', (p.objective x s).1 = (p.objective x s').1
  gradient : ∀ x s s', (p.gradient x s).1 = (p.gradient x s').1
  constraints : ∀ x s s', (p.constraints x s).1 = (p.constraints x s').1
  jacobian : ∀ x s s', (p.jacobian x s).1 = (p.jacobian x s').1

variable {α σ : Type}

/-! ## Rows of a pure problem

Problems answer by state, and the rows of a point are whatever some state gives. If the problem is
pure, all states give the same, so that the rows at the point returned are those at the last iterate
where the two are one point. -/

namespace Layout

/-- The rows at a point have these values, in some state of the problem. -/
def HasRows (l : Layout α) (p : Problem α σ) (x rows : Point α) : Prop :=
  ∃ s s', l.rows p x s = (.ok rows, s')

variable {l : Layout α} {p : Problem α σ}

theorem HasRows.unique (hp : p.Pure) {x rows rows' : Point α} (h : l.HasRows p x rows)
    (h' : l.HasRows p x rows') : rows = rows' := by
  obtain ⟨s, s₁, hrows⟩ := h
  obtain ⟨s', s₁', hrows'⟩ := h'
  rw [Layout.rows] at hrows hrows'
  by_cases hm : l.m = 0
  · rw [if_pos hm, Eval.pure_apply, Prod.mk.injEq, Except.ok.injEq] at hrows hrows'
    exact hrows.1.symm.trans hrows'.1
  · rw [if_neg hm] at hrows hrows'
    have heq := hp.constraints x s s'
    rw [hrows, hrows', Except.ok.injEq] at heq
    exact heq

end Layout

variable [Scalar α]

theorem History.Certificate.violation_le {c : Config α} {first : Iterate α} {h : History α}
    {status : Int} (hc : h.Certificate c first status) (hstatus : status = 0 ∨ status = 1) :
    (h.final c first).violation ≤ c.violationTolerance := by
  have hlast : ∀ i, h.iterations.getLast? = some i → (h.final c first).violation = i.violation := by
    intro i hi
    rw [final, hi]
    rfl
  rcases hstatus with hstatus | hstatus
  · obtain ⟨i, hi, -, -, hconverged⟩ := hc.succeeded.mp hstatus
    rw [hlast i hi]
    exact hconverged.1
  · rcases hc.acceptable.mp hstatus with ⟨i, hi, -, hstalled⟩ | ⟨-, hacceptable⟩
    · rw [hlast i hi]
      exact hstalled.2
    · exact hacceptable.1

/-! ## Before and behind the projection

The violation at the point that is returned is compared with the one that was certified. In exact
arithmetic the terms of variables hold after the projection, so that what is beyond the tolerance
there is a row. -/

namespace MultiplierMethod

variable {minimizer : Minimizer α} {p : Problem α σ} {c : Config α} {l : Layout α} {s s' : σ}

/-- The violation that is kept of the last iterate is the violation there. -/
theorem Completed.violation_final {x y : Point α} {first : Iterate α} {its : History α}
    {info : Summary α} (h : Completed minimizer p c l x s first its y info s') :
    ∃ rows, l.HasRows p (its.final c first).point rows ∧
      (its.final c first).violation = l.violation (l.values (its.final c first).point rows) := by
  obtain ⟨s₁, s₂, hstart, -, hcourse, -⟩ := h.ran
  rw [History.final]
  rcases hlast : its.iterations.getLast? with _ | i
  · obtain ⟨rows, s₀, hrows, -, rfl⟩ := start_eq_ok.mp hstart
    exact ⟨rows, ⟨s, s₀, hrows⟩, rfl⟩
  · obtain ⟨s₃, s₄, hperformed⟩ := hcourse.performed i (List.mem_of_getLast? hlast)
    obtain ⟨s₅, s₆, -, -, -, hrows, -⟩ := hperformed.asked
    exact ⟨i.rows, ⟨s₅, s₆, hrows⟩, hperformed.violation_eq⟩

theorem Completed.violation_le {x y : Point α} {first : Iterate α} {its : History α}
    {info : Summary α} (h : Completed minimizer p c l x s first its y info s')
    (hstatus : info.status = 0 ∨ info.status = 1) :
    ∃ rows, l.HasRows p (its.final c first).point rows ∧
      l.violation (l.values (its.final c first).point rows) ≤ c.violationTolerance := by
  obtain ⟨rows, hrows, hviolation⟩ := h.violation_final
  refine ⟨rows, hrows, ?_⟩
  rw [← hviolation]
  exact h.certificate.violation_le hstatus

theorem projected_of_exact (hexact : Scalar.Exact α) {n : ℕ} {b : Bounds α} (hb : b.Boxed n)
    {z rows : Point α} (hz : z.length = n) {tol : α}
    (h : (Layout.ofBounds n b).violation ((Layout.ofBounds n b).values z rows) ≤ tol)
    {y : Point α} (hy : y = (Layout.ofBounds n b).project z) (rows' : Point α) :
    (∀ k, Scalar.abs (y.coord k - z.coord k) ≤ tol) ∧
      (∀ t ∈ (Layout.ofBounds n b).terms, ∀ k, t.source = .coordinate k →
        0.0 ≤ t.distance (y.coord k)) ∧
      ((Layout.ofBounds n b).violation ((Layout.ofBounds n b).values y rows') ≤ tol ↔
        ∀ t ∈ (Layout.ofBounds n b).terms, ∀ j, t.source = .row j →
          t.excess (t.distance (rows'.coord j)) ≤ tol) := by
  obtain ⟨e, rfl⟩ := hexact
  subst hy
  have htol : (0 : α) ≤ tol := (Layout.violation_le_iff.mp h).1
  refine ⟨fun k ↦ Layout.abs_project_sub_le hb hz h k, fun t ht k hk ↦ ?_,
    Layout.violation_project_le_iff hb hz htol⟩
  rw [Scalar.zero_eq]
  exact Layout.distance_project_nonneg hb hz ht hk

/-- **What is certified of the point that is returned.** The certificate is one of the last iterate,
and the point that is returned is its projection. -/
theorem certified_point (hp : p.Pure) {x y : Point α} {info : Summary α}
    (h : run minimizer p c l x s = (.ok (y, info), s'))
    (hstatus : info.status = 0 ∨ info.status = 1) :
    ∃ (first : Iterate α) (its : History α) (z rows : Point α),
      Completed minimizer p c l x s first its y info s' ∧
      z = (its.final c first).point ∧ l.HasRows p z rows ∧
      l.violation (l.values z rows) ≤ c.violationTolerance ∧
      y = l.project z ∧ l.HasRows p y info.rows ∧
      (y = z → l.violation (l.values y info.rows) ≤ c.violationTolerance) ∧
      (Scalar.Exact α → ∀ n b, l = .ofBounds n b → b.Boxed n → z.length = n →
        (∀ k, Scalar.abs (y.coord k - z.coord k) ≤ c.violationTolerance) ∧
        (∀ t ∈ l.terms, ∀ k, t.source = .coordinate k → 0.0 ≤ t.distance (y.coord k)) ∧
        (l.violation (l.values y info.rows) ≤ c.violationTolerance ↔
          ∀ t ∈ l.terms, ∀ j, t.source = .row j →
            t.excess (t.distance (info.rows.coord j)) ≤ c.violationTolerance)) := by
  obtain ⟨first, its, hcompleted⟩ := exists_completed h
  obtain ⟨s₁, s₂, -, -, -, hfinish⟩ := hcompleted.ran
  obtain ⟨hy, objective, s₃, rows', s₄, -, hrows', -, hinfo⟩ := finish_eq_ok.mp hfinish
  -- the violation that the status speaks of is the one at the last iterate, before the projection
  obtain ⟨rows, hrows, hle⟩ := hcompleted.violation_le hstatus
  have hyrows : l.HasRows p y info.rows := by
    rw [hinfo]
    exact ⟨s₃, s₄, hrows'⟩
  refine ⟨first, its, _, rows, hcompleted, rfl, hrows, hle, hy, hyrows, ?_, ?_⟩
  · intro heq
    rw [← heq] at hrows hle
    rwa [← hrows.unique hp hyrows]
  · rintro hexact n b rfl hb hz
    exact projected_of_exact hexact hb hz hle hy info.rows

/-- The objective `x` with the row `x + 2`. -/
def shiftedRow : Problem ℚ Unit where
  objective x := pure (x.coord 0)
  gradient _ := pure [1]
  constraints x := pure [x.coord 0 + 2]
  jacobian _ := pure ⟨1, [[1]]⟩
  intermediate _ := pure true
  note _ := pure ()

theorem certified_point_shiftedRow :
    let c : Config ℚ := { Config.standard with tolerance := 1, violationTolerance := 1 }
    let b : Bounds ℚ := ⟨some [0], some [5], [0], [10]⟩
    let minimizer : Minimizer ℚ := fun _ ↦ .ok fun _ ↦ .pure (.ok ⟨some [-1], none, 1, none⟩)
    ∃ (y z : Point ℚ) (info : Summary ℚ) (first : Iterate ℚ) (its : History ℚ),
      Completed minimizer shiftedRow c (.ofBounds 1 b) [0] () first its y info () ∧
      info.status = 0 ∧ y = [0] ∧ z = (its.final c first).point ∧
      y = (Layout.ofBounds 1 b).project z ∧ ∀ k, |y.coord k - z.coord k| ≤ 1 := by
  intro c b minimizer
  have hpure : shiftedRow.Pure :=
    ⟨fun _ _ _ ↦ rfl, fun _ _ _ ↦ rfl, fun _ _ _ ↦ rfl, fun _ _ _ ↦ rfl⟩
  have hboxed : b.Boxed 1 := by
    intro k lo hi h
    rcases k with _ | k
    · cases h
      exact ⟨Nat.one_pos, by norm_num⟩
    · cases h
  have hok : ((run minimizer shiftedRow c (.ofBounds 1 b) [0] ()).1.toOption.map fun answer ↦
      (answer.1, answer.2.status)) = some ([0], 0) := by decide +kernel
  obtain ⟨⟨y, info⟩, hrun, hanswer⟩ := Except.map_toOption_eq_some.mp hok
  obtain ⟨hy, hstatus⟩ := Prod.mk.inj hanswer
  obtain ⟨first, its, z, _, hcompleted, hz, -, -, hproject, -, -, hexact⟩ :=
    certified_point hpure (Prod.ext hrun rfl) (Or.inl hstatus)
  have hlength : z.length = 1 := by
    rw [← Layout.length_project (.ofBounds 1 b), ← hproject]
    exact congrArg List.length hy
  exact ⟨y, z, info, first, its, hcompleted, hstatus, hy, hz, hproject,
    (hexact ⟨inferInstance, rfl⟩ 1 b rfl hboxed hlength).1⟩

/-- A concave objective with a row that falls by ten where the variable rises by one. -/
def steepRow : Problem Float Unit where
  objective x := pure (-50.0 * Scalar.square (x.coord 0) + -99.0 * x.coord 0)
  gradient x := pure [-100.0 * x.coord 0 + -99.0]
  constraints x := pure [-10.0 * x.coord 0 + -10.0]
  jacobian _ := pure ⟨1, [[-10.0]]⟩
  intermediate _ := pure true
  note _ := pure ()

/-- The descent goes to minus one, where the row holds and the bound at zero is violated by the
tolerance. At zero, which is returned, the row is violated by ten. -/
theorem violation_of_steepRow :
    let c : Config Float :=
      { Config.standard with
        iterationLimit := 1, tolerance := 1.0, violationTolerance := 1.0, barrier := 1.0 }
    let l : Layout Float := .ofBounds 1 ⟨some [0.0], some [Scalar.infinity], [0.0],
      [Scalar.infinity]⟩
    steepRow.Pure ∧
      ((run LimitedMemory.minimizer steepRow c l [0.0] ()).1.toOption.map fun answer ↦
        (answer.2.status, l.violation (l.values answer.1 answer.2.rows) == 10.0,
          decide (l.violation (l.values answer.1 answer.2.rows) ≤ c.violationTolerance)))
      = some (0, true, false) := by
  intro c l
  exact ⟨⟨fun _ _ _ ↦ rfl, fun _ _ _ ↦ rfl, fun _ _ _ ↦ rfl, fun _ _ _ ↦ rfl⟩,
    by decide +kernel⟩

end MultiplierMethod

end NonlinearProgram
