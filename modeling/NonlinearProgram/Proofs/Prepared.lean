import NonlinearProgram.Proofs.Checked
import NonlinearProgram.Proofs.Feasible
import NonlinearProgram.Proofs.Guarded
import NonlinearProgram.Proofs.Overlay

/-!
# Requests on the method of multipliers

What comes before the run of the method changes little. A solver is set up for the problem and the
layout of its bounds, settings change only its configuration, and of the session nothing changes
but the remarks. So a request with a result is a run of the method on the problem of its model, from
the session after the probe (`Request.minimize_eq_ok`).
-/

namespace NonlinearProgram

variable {α σ : Type} [Scalar α]

namespace MultiplierMethod

/-! ## Solvers

Each of the three operations of the method as a solver is described by what it does where it
succeeds, and by when it does. Creating a solver compares the lengths of the bounds with the numbers
of variables and rows; what a caller passes through the checks and the probe always has the right
ones. -/

theorem create_eq_ok {base : Config α} {n m : ℕ} {p : Problem α σ} {b : Bounds α}
    {solver : Solver α σ} {s s' : σ} (h : create base n m p b s = (.ok solver, s')) :
    solver = ⟨p, .ofBounds n b, base⟩ ∧ ∃ remark, s' = (p.note remark s).2 := by
  have hcheck : ∀ {outcome : Except (Fault α) Unit} {s s₁ : σ},
      (Eval.ofExcept outcome : Eval α σ Unit) s = (.ok (), s₁) → s₁ = s := by
    intro outcome s s₁ h
    rw [Eval.ofExcept_apply, Prod.mk.injEq] at h
    exact h.2.symm
  obtain ⟨⟨⟩, s₁, h₁, h⟩ := Eval.bind_eq_ok.mp h
  obtain ⟨⟨⟩, s₂, h₂, h⟩ := Eval.bind_eq_ok.mp h
  obtain ⟨⟨⟩, s₃, h₃, h⟩ := Eval.bind_eq_ok.mp h
  obtain ⟨⟨⟩, s₄, h₄, h⟩ := Eval.bind_eq_ok.mp h
  obtain ⟨⟨⟩, s₅, hnote, hsolver⟩ := Eval.bind_eq_ok.mp h
  have hs : s₄ = s := (hcheck h₄).trans ((hcheck h₃).trans ((hcheck h₂).trans (hcheck h₁)))
  rw [hs, Eval.lift_apply, Prod.mk.injEq] at hnote
  rw [Eval.pure_apply, Prod.mk.injEq, Except.ok.injEq] at hsolver
  exact ⟨hsolver.1.symm, _, hsolver.2.symm.trans hnote.2.symm⟩

theorem create_of_length {base : Config α} {n m : ℕ} {p : Problem α σ} {b : Bounds α}
    (hlower : ∀ lower, b.lower = some lower → lower.length = n)
    (hupper : ∀ upper, b.upper = some upper → upper.length = n) (hrowLower : b.rowLower.length = m)
    (hrowUpper : b.rowUpper.length = m) (s : σ) :
    create base n m p b s = (.ok ⟨p, .ofBounds n b, base⟩,
      (p.note (.created n m (Layout.ofBounds n b).size) s).2) := by
  have hside : ∀ side : Option (Point α), (∀ v, side = some v → v.length = n) →
      (Check.count n ((side.map List.length).getD n) : Except (Fault α) Unit) = .ok () := by
    intro side h
    refine Check.count_eq_ok.mpr ?_
    rcases side with _ | v
    · rfl
    · exact h v rfl
  rw [create, hside b.lower hlower, hside b.upper hupper, Check.count_eq_ok.mpr hrowLower,
    Check.count_eq_ok.mpr hrowUpper]
  rfl

theorem Solver.configure_eq_ok {s next : Solver α σ} {name : String} {value : Setting α}
    (h : s.configure name value = .ok next) :
    next.problem = s.problem ∧ next.layout = s.layout := by
  rw [configure] at h
  rcases hset : s.config.set name value with reason | c
  · rw [hset] at h
    cases h
  · rw [hset] at h
    cases h
    exact ⟨rfl, rfl⟩

/-- Settings that were taken changed the configuration alone. Induction on the settings. -/
theorem accepts_backendWith {minimizer : Minimizer α} {base : Config α}
    {entries : List (String × Setting α)}
    {solver last : (backendWith minimizer base : Backend α (Session α σ)).Solver}
    {s s' : Session α σ}
    (h : (backendWith minimizer base).Accepts Session.note entries solver s last s') :
    Solver.problem last = Solver.problem solver ∧ Solver.layout last = Solver.layout solver ∧
      ∃ remarks, s' = { s with remarks := remarks } := by
  induction h with
  | nil => exact ⟨rfl, rfl, _, rfl⟩
  | @cons name value entries solver next last s s₁ s₂ first _ ih =>
    obtain ⟨hproblem, hlayout, remarks, rfl⟩ := ih
    obtain ⟨hnext, rfl⟩ := Prod.mk.inj first
    obtain ⟨hproblem', hlayout'⟩ := Solver.configure_eq_ok hnext
    exact ⟨hproblem.trans hproblem', hlayout.trans hlayout', remarks, rfl⟩

theorem Solver.solve_of_length {minimizer : Minimizer α} {solver : Solver α σ} {x : Point α}
    (h : solver.layout.n = x.length) :
    solver.solve minimizer x = run minimizer solver.problem solver.config solver.layout x := by
  rw [solve, Check.count_eq_ok.mpr h.symm]
  rfl

theorem Solver.solve_eq_ok {minimizer : Minimizer α} {solver : Solver α σ} {x : Point α}
    {answer : Point α × Summary α} {s s' : σ}
    (h : solver.solve minimizer x s = (.ok answer, s')) :
    run minimizer solver.problem solver.config solver.layout x s = (.ok answer, s') := by
  obtain ⟨⟨⟩, s₁, hcheck, hrun⟩ := Eval.bind_eq_ok.mp h
  rw [Eval.ofExcept_apply, Prod.mk.injEq] at hcheck
  obtain ⟨-, rfl⟩ := hcheck
  exact hrun

end MultiplierMethod

/-! ## Requests

What is known at the end: the checks that were passed, the session that the probe has left, and a
run from there. Theorems about runs become theorems about requests through this one statement. -/

namespace Request

open MultiplierMethod

/-- The layout of a checked request whose probe found these rows. -/
def Checked.layout (c : Checked α σ) (rows : RowBounds α) : Layout α :=
  .ofBounds c.model.n ⟨c.lower, c.upper, rows.lower, rows.upper⟩

theorem Checks.length_bounds {r : Request α σ} {c : Checked α σ} (hc : r.Checks c) :
    (∀ lower, c.lower = some lower → lower.length = r.start.size) ∧
      ∀ upper, c.upper = some upper → upper.length = r.start.size := by
  have hbox := hc.box
  rcases hpairs : r.bounds with _ | pairs
  · rw [hpairs, Box.ofPairs, Except.ok.injEq, Prod.mk.injEq] at hbox
    constructor
    · intro lower h
      cases hbox.1.trans h
    · intro upper h
      cases hbox.2.trans h
  · rw [hpairs] at hbox
    obtain ⟨hlength, hlower, hupper⟩ := Box.ofPairs_eq_ok hbox
    constructor
    · intro lower h
      obtain rfl := Option.some.inj (h.symm.trans hlower)
      rw [List.length_map, hlength]
    · intro upper h
      obtain rfl := Option.some.inj (h.symm.trans hupper)
      rw [List.length_map, hlength]

theorem Checks.fits_layout {r : Request α σ} {c : Checked α σ} (hc : r.Checks c)
    {rows : RowBounds α} {m : ℕ} (hrows : rows.lower.length = m) :
    (c.layout rows).Fits c.model.n m :=
  Layout.fits_ofBounds (fun lower h ↦ (hc.length_bounds.1 lower h).trans hc.n_eq.symm) hrows

/-- A result is that of a run on the problem of the model, from the session after the probe, with
the base configuration under the settings of the request. -/
theorem minimize_eq_ok_overlay {minimizer : Minimizer α} {base : Config α} {r : Request α σ}
    {result : Result α} {s s' : Session α σ}
    (h : r.minimize (backendWith minimizer base) s = (.ok result, s')) :
    ∃ c rows s₁ remarks x summary s₂, r.Checks c ∧
      c.model.probe r.start.toPoint s = (.ok rows, s₁) ∧
      run minimizer c.model.problem (base.overlay (r.solverSettings c.tolerance).get?)
        (c.layout rows) r.start.toPoint { s₁ with remarks := remarks } = (.ok (x, summary), s₂) ∧
      result = .assemble r.start x summary s₂.counters := by
  rw [minimize] at h
  rcases hcheck : r.check with fault | c
  · rw [hcheck] at h
    cases h
  have hchecks := check_eq_ok_iff.mp hcheck
  rw [hcheck] at h
  simp only [runChecked_eq] at h
  obtain ⟨rows, s₁, hprobe, h⟩ := Eval.bind_eq_ok.mp h
  obtain ⟨solver, s₂, hcreate, h⟩ := Eval.bind_eq_ok.mp h
  obtain ⟨rfl, remark, rfl⟩ := create_eq_ok hcreate
  rcases r.useSolver_cases c (backendWith minimizer base) rows.size
      (⟨c.model.problem, .ofBounds r.start.size ⟨c.lower, c.upper, rows.lower, rows.upper⟩, base⟩ :
        Solver α (Session α σ)) (c.model.problem.note remark s₁).2 with
    ⟨_, _, _, _, _, _, _, _, -, -, -, huse⟩ | ⟨last, s₂, outcome, s₃, haccepts, hsolve, houtcome, -⟩
  · cases h.symm.trans huse
  rcases outcome with fault | ⟨x, summary⟩
  · cases (congrArg Prod.fst h).symm.trans houtcome
  obtain ⟨-, -, remarks, rfl⟩ := accepts_backendWith haccepts
  obtain ⟨rfl, -⟩ := overlay_of_accepts haccepts (Table.pairwise_ne _)
  have hrun := Solver.solve_eq_ok hsolve
  have hresult := (congrArg Prod.fst h).symm.trans houtcome
  rw [Solver.overlay, ← hchecks.n_eq] at hrun
  exact ⟨c, rows, s₁, _, x, summary, s₃, hchecks, hprobe, hrun, Except.ok.inj hresult⟩

theorem minimize_eq_ok {minimizer : Minimizer α} {base : Config α} {r : Request α σ}
    {result : Result α} {s s' : Session α σ}
    (h : r.minimize (backendWith minimizer base) s = (.ok result, s')) :
    ∃ c rows s₁ remarks config x summary s₂, r.Checks c ∧
      c.model.probe r.start.toPoint s = (.ok rows, s₁) ∧
      run minimizer c.model.problem config (c.layout rows) r.start.toPoint
        { s₁ with remarks := remarks } = (.ok (x, summary), s₂) ∧
      result = .assemble r.start x summary s₂.counters := by
  obtain ⟨c, rows, s₁, remarks, x, summary, s₂, hchecks, hprobe, hrun, hresult⟩ :=
    minimize_eq_ok_overlay h
  exact ⟨c, rows, s₁, remarks, _, x, summary, s₂, hchecks, hprobe, hrun, hresult⟩

end Request

end NonlinearProgram
