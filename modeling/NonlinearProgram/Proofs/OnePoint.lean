import Mathlib.Algebra.Order.Field.Rat
import NonlinearProgram.Proofs.Course
import NonlinearProgram.Proofs.Feasible
import NonlinearProgram.Proofs.Multipliers
import NonlinearProgram.Proofs.Prepared
import NonlinearProgram.Proofs.PureCallbacks

/-!
# Results describe one point

The point that a run returns is none of its iterates: it is the last one, moved onto the variable
bounds. What is reported with it could come from the last iterate, from the best point of a descent
or from an evaluation that was kept. In exact arithmetic and with pure callbacks all of it is of the
point returned, however the run ended (`Request.describes_of_minimize`): the objective and the rows
are those that the callbacks give there, and every bound that was asked for holds, unless it is so
large that it counts as absent.
-/

namespace NonlinearProgram

/-! ## The end of a run

The objective and the rows that are reported are asked for at the end of a run, at the point that is
returned. Of the iterations only the multipliers are left there, with the verdict and the number of
iterations. -/

section Runs

variable {α σ β : Type} {I J : σ → Prop}

theorem Eval.Keeps.and {act : Eval α σ β} {P Q : β → Prop} (hI : Eval.Keeps I act P)
    (hJ : Eval.Keeps J act Q) : Eval.Keeps (fun s ↦ I s ∧ J s) act fun b ↦ P b ∧ Q b :=
  fun s hs ↦ ⟨⟨(hI s hs.1).1, (hJ s hs.2).1⟩,
    fun b hb ↦ ⟨(hI s hs.1).2 b hb, (hJ s hs.2).2 b hb⟩⟩

/-- The operations of a problem keep a property of its state. -/
structure Problem.Maintains (p : Problem α σ) (J : σ → Prop) : Prop where
  objective : ∀ x, Eval.Keeps J (p.objective x) fun _ ↦ True
  gradient : ∀ x, Eval.Keeps J (p.gradient x) fun _ ↦ True
  constraints : ∀ x, Eval.Keeps J (p.constraints x) fun _ ↦ True
  jacobian : ∀ x, Eval.Keeps J (p.jacobian x) fun _ ↦ True
  intermediate : ∀ report s, J s → J (p.intermediate report s).2
  note : ∀ remark s, J s → J (p.note remark s).2

/-- Shapes under one property are shapes under two. -/
theorem GuardedProblem.Shaped.and {p : GuardedProblem α σ} {n m : ℕ} (hp : p.Shaped I n m)
    (hJ : p.toProblem.Maintains J) : p.Shaped (fun s ↦ I s ∧ J s) n m where
  objective x hx := ((hp.objective x hx).and (hJ.objective x)).mono fun _ h ↦ h.1
  gradient x hx := ((hp.gradient x hx).and (hJ.gradient x)).mono fun _ h ↦ h.1
  constraints x hx := ((hp.constraints x hx).and (hJ.constraints x)).mono fun _ h ↦ h.1
  jacobian x hx :=
    ⟨fun s hs ↦ (hp.jacobian x hx).agrees s hs.1,
      ((hp.jacobian x hx).keeps.and (hJ.jacobian x)).mono fun _ h ↦ h.1⟩
  intermediate report s hs := ⟨hp.intermediate report s hs.1, hJ.intermediate report s hs.2⟩
  note remark s hs := ⟨hp.note remark s hs.1, hJ.note remark s hs.2⟩

variable [Scalar α]

/-- What a run returns: a point moved onto the variable bounds, with the answers of the problem
there, in states in which the property that the run keeps holds. -/
structure Summary.Finishes (info : Summary α) (p : Problem α σ) (l : Layout α) (I : σ → Prop)
    (n m : ℕ) (y : Point α) : Prop where
  projected : ∃ z : Point α, z.length = n ∧ y = l.project z
  point : info.point = y
  objective : ∃ s, I s ∧ (p.objective y s).1 = .ok info.objective
  rows : ∃ s, I s ∧ (l.rows p y s).1 = .ok info.rows
  rowsLength : info.rows.length = m
  rowMultipliers : info.rowMultipliers.length = m
  lowerMultipliers : info.lowerMultipliers.length = n
  upperMultipliers : info.upperMultipliers.length = n

namespace MultiplierMethod

variable {minimizer : Minimizer α} {p : GuardedProblem α σ} {c : Config α} {l : Layout α} {n m : ℕ}

/-- However the iterations ended, what is returned was asked for at the end. -/
theorem finishes_of_run (hp : p.Shaped I n m) (hl : l.Fits n m)
    (hminimizer : minimizer.KeepsLength) {x y : Point α} (hx : x.length = n) {s s' : σ} (hs : I s)
    {info : Summary α} (h : run minimizer p.toProblem c l x s = (.ok (y, info), s')) :
    info.Finishes p.toProblem l I n m y := by
  obtain ⟨first, s₁, hstart, h⟩ := Eval.bind_eq_ok.mp h
  obtain ⟨hs₁, hfirst⟩ := (safe_start hp hl hx).keeps s hs
  rw [hstart] at hs₁ hfirst
  obtain ⟨-, hs₂, hpoints⟩ :=
    safe_history (c := c) hp hl hminimizer c.iterationLimit 1 (hfirst first rfl) hs₁
  obtain ⟨its, s₂, hits, h⟩ := Eval.bind_eq_ok.mp h
  rw [Eval.lift_apply, Prod.mk.injEq, Except.ok.injEq] at hits
  rw [hits.2] at hs₂
  rw [hits.1] at hpoints
  rcases hfault : its.fault with _ | fault
  · simp only [hfault] at h
    obtain ⟨rfl, objective, s₃, rows, s₄, hobjective, hrows, -, rfl⟩ := finish_eq_ok.mp h
    have hlast := length_final (c := c) hpoints (hfirst first rfl)
    have hlength := (Layout.project?_eq_some hl hlast).2
    have hs₃ := (hp.objective _ hlength s₂ hs₂).1
    rw [hobjective] at hs₃
    have hrowsLength := (hp.rows hl hlength s₃ hs₃).2 rows (by rw [hrows])
    obtain ⟨hsplit, hlower, hupper⟩ := l.length_splitMultipliers (its.final c first).lambda
    exact
      { projected := ⟨_, hlast, rfl⟩
        point := rfl
        objective := ⟨s₂, hs₂, by rw [hobjective]⟩
        rows := ⟨s₃, hs₃, by rw [hrows]⟩
        rowsLength := hrowsLength
        rowMultipliers := hsplit.trans hl.m_eq
        lowerMultipliers := hlower.trans hl.n_eq
        upperMultipliers := hupper.trans hl.n_eq }
  · simp only [hfault, Eval.throw_apply] at h
    cases h

end MultiplierMethod

end Runs

/-! ## Bounds

In exact arithmetic points that compare equal are equal, so that an answer from a kept evaluation is
the answer at the point itself. -/

section Exact

variable {K σ : Type} [ExactScalar K]

theorem Point.eq_of_same {x y : Point K} (h : Point.same x y) : x = y := eq_of_beq h

theorem Layout.project_within {pairs : List (K × K)} {n : ℕ} {lower upper : Option (Point K)}
    (hbox : Box.ofPairs (some pairs) n = .ok (lower, upper)) (rowLower rowUpper : Point K)
    {z : Point K} (hz : z.length = n) {i : ℕ} {lo hi : K} (hi' : pairs[i]? = some (lo, hi)) :
    let y := (Layout.ofBounds n ⟨lower, upper, rowLower, rowUpper⟩).project z
    (|lo| < Box.limit → lo ≤ y.coord i) ∧ (|hi| < Box.limit → y.coord i ≤ hi) := by
  obtain ⟨hlength, rfl, rfl⟩ := Box.ofPairs_eq_ok hbox
  have haccepts := Box.accepts_of_ofPairs hbox (lo, hi) (List.mem_of_getElem? hi')
  have hle : lo ≤ hi := not_lt.mp haccepts.2.2
  have hlt : i < z.length := by
    rw [hz, ← hlength]
    exact (List.getElem?_eq_some_iff.mp hi').1
  have hpair : Bounds.pair? ⟨some (pairs.map fun p ↦ (Box.cut p).1),
      some (pairs.map fun p ↦ (Box.cut p).2), rowLower, rowUpper⟩ i = some (Box.cut (lo, hi)) := by
    rw [Bounds.pair?]
    refine List.getElem?_zip_eq_some.mpr ⟨?_, ?_⟩ <;> rw [List.getElem?_map, hi'] <;> rfl
  intro y
  have hy : y.coord i
      = Term.clamp (Max.max lo (-Box.limit)) (Min.min hi Box.limit) (z.coord i) := by
    rw [Layout.coord_project n _ hlt, hpair, Option.elim_some, Box.cut, Scalar.max_eq,
      Scalar.min_eq]
  rw [hy]
  refine ⟨fun hlo ↦ ?_, fun hhi ↦ ?_⟩
  · obtain ⟨hlow, hhigh⟩ := abs_lt.mp hlo
    rw [max_eq_left hlow.le]
    exact Term.le_clamp (le_min hle hhigh.le) (Term.bounded_iff.mpr hlo) _
  · obtain ⟨hlow, hhigh⟩ := abs_lt.mp hhi
    rw [min_eq_left hhigh.le]
    exact Term.clamp_le (Term.bounded_iff.mpr hhi) _

/-! ## Models -/

namespace Model

theorem maintains_remembers {m : Model K σ} (hpure : m.evaluator.source.Pure) :
    m.problem.Maintains m.Remembers where
  objective x := (keeps_objective_pure (fun _ _ ↦ Point.eq_of_same) hpure x).mono
    fun _ _ ↦ trivial
  gradient := remembers_gradient (fun _ _ ↦ Point.eq_of_same) hpure
  constraints := keeps_stackedValues fun _ _ hs ↦ hs
  jacobian := keeps_stackedBlocks fun _ _ hs ↦ hs
  intermediate _ _ hs := hs
  note _ _ hs := hs

end Model

/-! ## Requests

The result is put together from the summary of the run. What remains to be shown is that the model
asks the callbacks of the request, in their order, with its parameters. -/

theorem Location.toPoint_reshape {α : Type} (l : Location α) (x : Point α) :
    (l.reshape x).toPoint = x := by
  unfold reshape
  split <;> rfl

theorem Location.isScalar_reshape {α : Type} {l : Location α} {x : Point α}
    (h : x.length = l.size) : (l.reshape x).isScalar = l.isScalar := by
  cases l with
  | scalar value =>
    obtain ⟨a, rfl⟩ := List.length_eq_one_iff.mp h
    rfl
  | vector point => rfl

namespace Request

open MultiplierMethod

/-- All callbacks of a request whose answers a result reports are pure. -/
structure Pure (r : Request K σ) : Prop where
  objective : r.objective.Pure
  constraints : ∀ c ∈ r.constraints, c.value.Pure

/-- A result that describes one point, for a request with `m` rows. -/
structure Describes (r : Request K σ) (m : ℕ) (result : Result K) : Prop where
  /-- The solution is the point of the summary, in the form of the start. -/
  solution : result.solution.toPoint = result.summary.point
  length : result.summary.point.length = r.start.size
  isScalar : result.solution.isScalar = r.start.isScalar
  /-- Every bound of a magnitude below the limit holds. -/
  bounds : ∀ pairs, r.bounds = some pairs → ∀ i lo hi, pairs[i]? = some (lo, hi) →
    (|lo| < Box.limit → lo ≤ result.summary.point.coord i) ∧
      (|hi| < Box.limit → result.summary.point.coord i ≤ hi)
  objective_eq : result.objective = result.summary.objective
  /-- The objective is that of the point. -/
  objective : r.objective.Gives (r.parameters.mergeNamed r.extra) result.summary.point
    result.objective
  /-- The rows are those of the point, where there are any. -/
  rows : m ≠ 0 → Constraint.Give r.constraints result.summary.point result.summary.rows
  rowsLength : result.summary.rows.length = m
  rowMultipliers : result.summary.rowMultipliers.length = m
  lowerMultipliers : result.summary.lowerMultipliers.length = r.start.size
  upperMultipliers : result.summary.upperMultipliers.length = r.start.size
  status : result.status = result.summary.status
  success : result.success = true ↔ result.status = 0

section Finished

variable {r : Request K σ} {c : Checked K σ}

theorem Checks.gives_objective (hc : r.Checks c) (hpure : r.Pure) {s : Session K σ}
    (hs : c.model.Remembers s) {x : Point K} {v : K} (h : (c.model.objective x s).1 = .ok v) :
    r.objective.Gives (r.parameters.mergeNamed r.extra) x v := by
  have hsource : c.model.evaluator.source = r.objective := Evaluator.source_of_pair? hc.evaluator
  have hobjective : c.model.evaluator.source.Pure := hsource ▸ hpure.objective
  have hgives := (Model.keeps_objective_pure (fun _ _ ↦ Point.eq_of_same) hobjective x s hs).2 v h
  rwa [hsource, hc.parameters_eq] at hgives

theorem Checks.give_rows (hc : r.Checks c) (hpure : r.Pure) {s : Session K σ} {x rows : Point K}
    (h : (c.model.stackedValues x s).1 = .ok rows) : Constraint.Give r.constraints x rows := by
  have hvalues : ∀ k ∈ c.model.constraints, k.value.Pure := hc.constraints_eq ▸ hpure.constraints
  have hgives := (Model.keeps_stackedValues_pure (I := fun _ ↦ True) (fun _ _ _ ↦ trivial) hvalues
    x s trivial).2 rows h
  rwa [hc.constraints_eq] at hgives

theorem Checks.describes (hc : r.Checks c) (hpure : r.Pure) {b : RowBounds K} {m : ℕ}
    (hm : b.lower.length = m) {I : Session K σ → Prop} (hI : ∀ s, I s → c.model.Remembers s)
    {x : Point K} {summary : Summary K}
    (h : summary.Finishes c.model.problem (c.layout b) I c.model.n m x) (counters : Counters) :
    r.Describes m (.assemble r.start x summary counters) := by
  obtain ⟨z, hz, hproject⟩ := h.projected
  obtain ⟨s, hs, hobjective⟩ := h.objective
  obtain ⟨s', -, hrows⟩ := h.rows
  have hx : x.length = r.start.size := by
    rw [hproject, Layout.length_project, hz, hc.n_eq]
  exact
    { solution := (Location.toPoint_reshape _ _).trans h.point.symm
      length := (congrArg List.length h.point).trans hx
      isScalar := Location.isScalar_reshape hx
      bounds := by
        intro pairs hpairs i lo hi hi'
        have hbox := hc.box
        rw [hpairs, ← hc.n_eq] at hbox
        show (_ → lo ≤ summary.point.coord i) ∧ (_ → summary.point.coord i ≤ hi)
        rw [h.point, hproject]
        exact Layout.project_within hbox b.lower b.upper hz hi'
      objective_eq := rfl
      objective := by
        show r.objective.Gives _ summary.point summary.objective
        rw [h.point]
        exact hc.gives_objective hpure (hI s hs) hobjective
      rows := by
        intro hne
        have hlayout : (c.layout b).m ≠ 0 := hm.trans_ne hne
        rw [Layout.rows, if_neg hlayout] at hrows
        show Constraint.Give r.constraints summary.point summary.rows
        rw [h.point]
        exact hc.give_rows hpure hrows
      rowsLength := h.rowsLength
      rowMultipliers := h.rowMultipliers
      lowerMultipliers := h.lowerMultipliers.trans hc.n_eq
      upperMultipliers := h.upperMultipliers.trans hc.n_eq
      status := rfl
      success := decide_eq_true_iff }

end Finished

/-- **A result describes one point.** In exact arithmetic, with pure callbacks, and however the run
ended: the solution is the point of the summary, within all bounds below the limit; the objective
and the rows are those of the callbacks there, and there are as many rows and multipliers as the
constraints have values at the start. -/
theorem describes_of_minimize {minimizer : Minimizer K} (hminimizer : minimizer.KeepsLength)
    {base : Config K} {r : Request K σ} (hpure : r.Pure)
    (hr : ∀ c ∈ r.constraints, c.Rectangular) {u : σ} {result : Result K} {s : Session K σ}
    (h : r.minimize (backendWith minimizer base) { user := u } = (.ok result, s)) :
    ∃ rows, Constraint.Give r.constraints r.start.toPoint rows ∧
      r.Describes rows.length result := by
  obtain ⟨c, b, s₁, remarks, config, x, summary, s₂, hchecks, hprobe, hrun, rfl⟩ :=
    minimize_eq_ok h
  have hconstraints := hchecks.constraints_eq
  obtain ⟨rows, hgive, hrows⟩ :=
    Model.give_of_probe (hconstraints ▸ hpure.constraints) hprobe
  refine ⟨rows, hconstraints ▸ hgive, ?_⟩
  rw [hrows]
  -- from the probe on, arities are fixed and evaluations are kept that are right
  obtain ⟨hbounds, harities, -⟩ := Model.probe_eq_ok hprobe
  have hprobed := Model.probed_of_probe rfl rfl hprobe
  have hremembers : c.model.Remembers s₁ := Model.remembers_probe hprobe rfl
  have hsize : b.lower.length = b.arities.sum :=
    (Model.coherent_of_arities hbounds harities hprobed.1).bounds.1
  have hsource : c.model.evaluator.source = r.objective :=
    Evaluator.source_of_pair? hchecks.evaluator
  have hshaped := (Model.shaped_guarded harities (hconstraints ▸ hr)).and
    (Model.maintains_remembers (hsource ▸ hpure.objective))
  have hfinishes := finishes_of_run hshaped (hchecks.fits_layout hsize) hminimizer
    (x := r.start.toPoint) hchecks.n_eq.symm
    (s := { s₁ with remarks := remarks }) ⟨hprobed, hremembers⟩ hrun
  exact hchecks.describes hpure hsize (fun _ hs ↦ hs.2) hfinishes _

/-- A parabola with its least value beyond a bound, and one row. The run is cut off after an
iteration. -/
def clipped : Request ℚ Unit where
  objective := .combined fun x _ ↦ pure (Scalar.square (x.coord 0 - 4), [2 * (x.coord 0 - 4)])
  gradient := .combined
  start := .scalar 5
  constraints := [{ kind := .inequality, value := fun x _ ↦ pure [x.coord 0] }]
  bounds := some [(-1, 3)]
  settings := Table.insert ∅ "max_iter" (.int 1)
  step := .fixed 1

theorem describes_of_minimize_clipped :
    (LimitedMemory.minimizer : Minimizer ℚ).KeepsLength ∧ clipped.Pure ∧
      (∀ c ∈ clipped.constraints, c.Rectangular) ∧
      ∃ result s rows, clipped.minimize (backendWith LimitedMemory.minimizer Config.standard)
          { user := () } = (.ok result, s) ∧
        result.solution.toPoint = [3] ∧ result.status = -1 ∧ result.objective = 1 ∧
        Constraint.Give clipped.constraints clipped.start.toPoint rows ∧
        clipped.Describes rows.length result := by
  have hpure : clipped.Pure := by
    refine ⟨fun _ _ _ _ ↦ rfl, fun c hc ↦ ?_⟩
    rw [List.mem_singleton.mp hc]
    exact fun _ _ _ _ ↦ rfl
  have hr : ∀ c ∈ clipped.constraints, c.Rectangular := by
    intro c hc derivative hderivative
    rw [List.mem_singleton.mp hc] at hderivative
    cases hderivative
  have hok : (clipped.minimize (backendWith LimitedMemory.minimizer Config.standard)
      { user := () }).1.toOption.map (fun result ↦
        (result.solution.toPoint, result.status, result.objective)) = some ([3], -1, 1) := by
    decide +kernel
  refine ⟨LimitedMemory.keepsLength_minimizer, hpure, hr, ?_⟩
  rcases hrun : clipped.minimize (backendWith LimitedMemory.minimizer Config.standard)
    { user := () } with ⟨fault | result, s⟩
  · rw [hrun] at hok
    cases hok
  · rw [hrun] at hok
    obtain ⟨hsolution, hok⟩ := Prod.mk.inj (Option.some.inj hok)
    obtain ⟨hstatus, hobjective⟩ := Prod.mk.inj hok
    obtain ⟨rows, hgive, hdescribes⟩ :=
      describes_of_minimize LimitedMemory.keepsLength_minimizer hpure hr hrun
    exact ⟨result, s, rows, rfl, hsolution, hstatus, hobjective, hgive, hdescribes⟩

end Request

end Exact

end NonlinearProgram
