import NonlinearProgram.Proofs.GuardedRun
import NonlinearProgram.Proofs.Lockstep
import NonlinearProgram.Proofs.Prepared

/-!
# Requests with guarded access

A request runs callbacks that may return anything: values in any number, gradients and derivatives
of any shape, faults in any pattern, and something else at every call. No index is out of range for
it. Every access of a run is guarded by a check that comes before it, and which one that is depends
on the evaluator, on whether a constraint has a derivative of its own, and on the difference step:

* the probe fixes how many values each constraint has, and later values are checked against it;
* a gradient is checked when a callback returns it, is as long as the point where differences make
  it up, and was checked when it was kept;
* a derivative block is checked as a whole, whatever it was made from;
* the layout of the solver has as many variables and rows as the checked bounds.

`Request.minimize?` is `Request.minimize` with every access guarded, and never gets stuck
(`Request.minimize?_eq_some`).
-/

namespace NonlinearProgram

variable {α σ : Type}

/-! ## Sessions

Between two operations a session holds the arities that the probe found and, it may be, an
evaluation that was checked when it was kept. Nothing in a run changes the former, and what replaces
the latter was checked as well. -/

namespace Session

variable {n : ℕ}

theorem stable_kept (n : ℕ) :
    Stable n fun s : Session α σ ↦ ∀ e, s.kept = some e → e.gradient.length = n where
  user _ _ h := h
  remarks _ _ h := h
  evaluations _ _ h := h
  gradients _ _ h := h
  iterations _ _ h := h
  kept _ e he _ e' he' := by
    cases he'
    exact he
  arities _ _ h := h

theorem Stable.and {I J : Session α σ → Prop} (hI : Stable n I) (hJ : Stable n J) :
    Stable n fun s ↦ I s ∧ J s where
  user s u h := ⟨hI.user s u h.1, hJ.user s u h.2⟩
  remarks s r h := ⟨hI.remarks s r h.1, hJ.remarks s r h.2⟩
  evaluations s k h := ⟨hI.evaluations s k h.1, hJ.evaluations s k h.2⟩
  gradients s k h := ⟨hI.gradients s k h.1, hJ.gradients s k h.2⟩
  iterations s k h := ⟨hI.iterations s k h.1, hJ.iterations s k h.2⟩
  kept s e he h := ⟨hI.kept s e he h.1, hJ.kept s e he h.2⟩
  arities s a h := ⟨hI.arities s a h.1, hJ.arities s a h.2⟩

/-- After the probe of a model with `n` variables: the arities are fixed, and an evaluation that is
kept was checked. -/
def Probed (n : ℕ) (a : List ℕ) (s : Session α σ) : Prop :=
  s.arities = some a ∧ ∀ e, s.kept = some e → e.gradient.length = n

theorem stable_probed (n : ℕ) (a : List ℕ) : Stable n (Probed n a : Session α σ → Prop) :=
  (stable_arities n a).and (stable_kept n)

end Session

/-! ## Models

A model reads entries only of what a callback returned. Values are as many as was checked, a block
is as high and as wide as was checked, and that its rows are all of that width is what it means to
be an array. -/

/-- Derivatives come as arrays, with an entry for every column in each row. -/
def Constraint.Rectangular (c : Constraint α σ) : Prop :=
  ∀ derivative, c.derivative = some derivative → ∀ x parameters,
    Eval.Keeps (fun _ ↦ True) (derivative x parameters) Matrix.Whole

theorem Model.keeps_length_stackedValues {m : Model α σ} {a : List ℕ}
    (harities : a.length = m.constraints.length) (x : Point α) :
    Eval.Keeps (Session.Probed m.n a) (m.stackedValues x) fun rows ↦ rows.length = a.sum := by
  intro s hs
  refine ⟨(keeps_stackedValues (Session.stable_probed m.n a).user x s hs).1, fun rows hrows ↦ ?_⟩
  obtain ⟨parts, hparts, rfl⟩ := ((stacks_values harities hs.1 x).ok rows _).mp (Prod.ext hrows rfl)
  have hlengths := (hparts.forall₂
    (fun p ↦ Placed.keeps_values (Session.stable_arities m.n a) p x) hs.1).2
  exact Stack.length_flatten (map_length_eq harities hlengths)

variable [Scalar α]

namespace Model

/-- The derivative of constraint `index`. -/
def constraintBlock? (m : Model α σ) (index : ℕ) (c : Constraint α σ) (x : Point α) :
    Strict α (Session α σ) (Matrix α) := do
  let block ← match c.derivative with
    | some derivative => Strict.ofEval (Session.callUser (derivative x c.parameters))
    | none => Forward.jacobian? (constraintValues index c) x m.step
  let session ← Strict.ofEval get
  let height := (session.arity? index).getD block.height
  Strict.ofEval (Eval.ofExcept (Check.jacobian block index height m.n))
  pure block

/-- The derivatives of all constraints, stacked. -/
def stackedBlocks? (m : Model α σ) (x : Point α) : Strict α (Session α σ) (Matrix α) := do
  let blocks ← m.constraints.zipIdx.mapM fun p ↦ m.constraintBlock? p.2 p.1 x
  Strict.access (Matrix.stack? m.n blocks)

/-- The model as a solver with guarded access sees it. -/
def guarded (m : Model α σ) : GuardedProblem α (Session α σ) where
  toProblem := m.problem
  jacobian? := m.stackedBlocks?

variable {m : Model α σ} {a : List ℕ}

theorem safe_constraintBlock {c : Constraint α σ} (hc : c.Rectangular) {i k : ℕ}
    (hk : a[i]? = some k) (x : Point α) :
    Strict.Safe (Session.Probed m.n a) (m.constraintBlock? i c x) (m.constraintBlock i c x)
      fun block ↦ block.HasShape k m.n := by
  have hI := Session.stable_probed (α := α) (σ := σ) m.n a
  have hcheck : ∀ block : Matrix α, block.Whole → Strict.Safe (Session.Probed m.n a)
      (do
        let session ← Strict.ofEval get
        let height := (session.arity? i).getD block.height
        Strict.ofEval (Eval.ofExcept (Check.jacobian block i height m.n))
        pure block : Strict α (Session α σ) (Matrix α))
      (m.checkBlock i block) fun block ↦ block.HasShape k m.n := by
    intro block hblock
    refine (Strict.safe_ofEval Eval.keeps_get).bind fun s hs ↦ ?_
    rw [arity?_of_arities hs.1 hk, Option.getD_some]
    refine (Strict.safe_ofEval (Eval.keeps_check_jacobian block i k m.n)).bind fun _ hshape ↦ ?_
    obtain ⟨hheight, hwidth⟩ := Prod.mk.inj hshape
    exact Strict.safe_pure ⟨hheight, hwidth, fun r hr ↦ (hblock r hr).trans hwidth⟩
  rw [constraintBlock?, constraintBlock_eq_bind]
  rcases hderivative : c.derivative with _ | derivative
  · exact (Forward.safe_jacobian (keeps_constraintValues hI.user i c) x m.step).bind hcheck
  · exact (Strict.safe_ofEval (Session.keeps_callUser hI.user (hc derivative hderivative x _))).bind
      hcheck

theorem safe_stackedBlocks (harities : a.length = m.constraints.length)
    (hm : ∀ c ∈ m.constraints, c.Rectangular) (x : Point α) :
    Strict.Safe (Session.Probed m.n a) (m.stackedBlocks? x) (m.stackedBlocks x)
      fun J ↦ J.HasShape a.sum m.n := by
  refine (Strict.safe_mapM fun p hp ↦ safe_constraintBlock
    (hm p.1 (List.fst_mem_of_mem_zipIdx hp)) (getElem?_arities harities hp) x).bind
      fun blocks hshapes ↦ ?_
  have hblock : ∀ block ∈ blocks, block.width = m.n ∧ ∀ r ∈ block.rows, r.length = m.n := by
    intro block hmem
    obtain ⟨i, hi, rfl⟩ := List.getElem_of_mem hmem
    have hshape := hshapes.get (hshapes.length_eq ▸ hi) hi
    exact ⟨hshape.width, hshape.row⟩
  have hheights : (blocks.map fun block ↦ block.rows.length) = a :=
    map_length_eq harities
      (List.forall₂_map_left_iff.mpr (hshapes.imp fun _ _ hshape ↦ hshape.height))
  refine Strict.safe_access (Matrix.stack?_eq_some fun block hmem ↦ (hblock block hmem).1) ?_
  refine ⟨?_, rfl, fun r hr ↦ ?_⟩
  · rw [← hheights]
    exact List.length_flatMap
  · obtain ⟨block, hmem, hrow⟩ := List.mem_flatMap.mp hr
    exact (hblock block hmem).2 r hrow

/-- After the probe a model answers with the shapes that the probe found, as far as its derivative
does. -/
theorem shaped_of_jacobian (harities : a.length = m.constraints.length)
    {jacobian? : Point α → Strict α (Session α σ) (Matrix α)}
    (hjacobian : ∀ x, x.length = m.n → Strict.Safe (Session.Probed m.n a) (jacobian? x)
      (m.stackedBlocks x) fun J ↦ J.HasShape a.sum m.n) :
    (⟨m.problem, jacobian?⟩ : GuardedProblem α (Session α σ)).Shaped (Session.Probed m.n a) m.n
      a.sum where
  objective x _ := keeps_objective (Session.stable_probed m.n a).steady x
  gradient _ hx := keeps_gradient (Session.stable_probed m.n a).steady (fun _ e hs he ↦ hs.2 e he)
    (fun _ h ↦ h) fun _ h ↦ h.trans hx
  constraints x _ := keeps_length_stackedValues harities x
  jacobian := hjacobian
  intermediate _ s hs := (Session.stable_probed m.n a).iterations s _ hs
  note _ s hs := (Session.stable_probed m.n a).remarks s _ hs

theorem shaped_guarded (harities : a.length = m.constraints.length)
    (hm : ∀ c ∈ m.constraints, c.Rectangular) :
    m.guarded.Shaped (Session.Probed m.n a) m.n a.sum :=
  shaped_of_jacobian harities fun x _ ↦ safe_stackedBlocks harities hm x

theorem probed_of_probe {x : Point α} {s s' : Session α σ} {b : RowBounds α}
    (harities : s.arities = none) (hkept : s.kept = none) (h : m.probe x s = (.ok b, s')) :
    Session.Probed m.n b.arities s' := by
  obtain ⟨-, -, hs'⟩ := probe_eq_ok h
  have hnone : ∀ e, s.kept = some e → e.gradient.length = m.n := by
    rw [hkept]
    exact nofun
  have hkept' := (keeps_probe (Session.stable_kept m.n) x s hnone).1
  rw [h] at hkept'
  rw [harities] at hs'
  exact ⟨hs', hkept'⟩

end Model

/-! ## Solvers

A solver is created with bounds for as many variables and rows as the session knows, and settings
leave them alone. -/

section Solvers

variable {I : σ → Prop} {n m : ℕ}

namespace MultiplierMethod

/-- A solver for a problem whose layout fits its variables and rows. -/
structure Solver.Fits (s : Solver α σ) (p : Problem α σ) (n m : ℕ) : Prop where
  problem : s.problem = p
  layout : s.layout.Fits n m

theorem Solver.Fits.configure {s next : Solver α σ} {p : Problem α σ} (hs : s.Fits p n m)
    {name : String} {value : Setting α} (h : s.configure name value = .ok next) :
    next.Fits p n m := by
  obtain ⟨hproblem, hlayout⟩ := Solver.configure_eq_ok h
  exact ⟨hproblem.trans hs.problem, hlayout ▸ hs.layout⟩

theorem keeps_create {p : Problem α σ} (hnote : ∀ r s, I s → I (p.note r s).2) (base : Config α)
    (b : Bounds α) : Eval.Keeps I (create base n m p b) fun s ↦ s.Fits p n m := by
  refine (Eval.keeps_check_count _ _).bind fun _ hlower ↦ ?_
  refine (Eval.keeps_check_count _ _).bind fun _ _ ↦ ?_
  refine (Eval.keeps_check_count _ _).bind fun _ hrows ↦ ?_
  refine (Eval.keeps_check_count _ _).bind fun _ _ ↦ ?_
  refine (Eval.keeps_lift (hnote _)).bind fun _ _ ↦ Eval.keeps_pure ⟨rfl, ?_⟩
  refine Layout.fits_ofBounds (fun lower hsome ↦ ?_) hrows.symm
  rw [hlower, hsome]
  rfl

theorem keeps_configure {minimizer : Minimizer α} {base : Config α} {p : Problem α σ}
    {note : Remark α → StateM σ Unit} (hnote : ∀ r s, I s → I (note r s).2)
    (settings : Settings α) {solver : Solver α σ} (hsolver : solver.Fits p n m) :
    Eval.Keeps I ((backendWith minimizer base).configureAll note settings solver)
      fun s : Solver α σ ↦ s.Fits p n m := by
  refine Eval.Lockstep.keeps (Backend.lockstep_configureAll (b := backendWith minimizer base)
    ?_ ?_ settings ⟨rfl, hsolver⟩)
  · rintro r s _ ⟨rfl, hs⟩
    exact ⟨rfl, hnote r s hs⟩
  · rintro (solver : Solver α σ) _ name value s _ ⟨rfl, hfits⟩ ⟨rfl, hs⟩
    refine ⟨⟨rfl, hs⟩, ?_⟩
    show Agree _ (solver.configure name value) (solver.configure name value)
    rcases hnext : solver.configure name value with reason | next
    · exact .fault reason
    · exact .answer ⟨rfl, Solver.Fits.configure hfits hnext⟩

/-- Runs a solver from a point with a coordinate for each variable. -/
def Solver.solve? (minimizer : Minimizer α) (s : Solver α σ)
    (jacobian? : Point α → Strict α σ (Matrix α)) (x : Point α) :
    Strict α σ (Point α × Summary α) := do
  Strict.ofEval (Eval.ofExcept (Check.count s.layout.n x.length))
  run? minimizer ⟨s.problem, jacobian?⟩ s.config s.layout x

theorem safe_solve {minimizer : Minimizer α} (hminimizer : minimizer.KeepsLength)
    {s : Solver α σ} {p : GuardedProblem α σ} (hp : p.Shaped I n m) (hs : s.Fits p.toProblem n m)
    (x : Point α) :
    Strict.Safe I (s.solve? minimizer p.jacobian? x) (s.solve minimizer x) fun _ ↦ True := by
  refine (Strict.safe_ofEval (Eval.keeps_check_count _ _)).bind fun _ hlength ↦ ?_
  rw [hs.problem]
  exact safe_run hp hs.layout hminimizer (hlength.symm.trans hs.layout.n_eq)

end MultiplierMethod

end Solvers

/-! ## Requests

The parts are put together in the order of a request: checks, probe, creation, settings, run. The
run is the part with guarded access, and what comes before it is there to make it safe. -/

namespace Request

open MultiplierMethod

/-- Runs a checked request: probe, set up, configure, solve. -/
def runChecked? (minimizer : Minimizer α) (base : Config α) (r : Request α σ) (c : Checked α σ) :
    Strict α (Session α σ) (Result α) := do
  let x := r.start.toPoint
  let n := x.length
  let rows ← Strict.ofEval (c.model.probe x)
  let m := rows.size
  let solver ← Strict.ofEval
    (create base n m c.model.problem ⟨c.lower, c.upper, rows.lower, rows.upper⟩)
  Strict.ofEval (ExceptT.lift r.noteNames)
  let settings := r.solverSettings c.tolerance
  let solver ← Strict.ofEval
    ((backendWith minimizer base).configureAll Session.note settings solver)
  Strict.ofEval (Session.remark (.solving n m settings.size))
  let (final, summary) ← Solver.solve? minimizer solver c.model.stackedBlocks? x
  Strict.ofEval (Session.remark (.finished summary.status summary.message))
  let session ← Strict.ofEval get
  pure (.assemble r.start final summary session.counters)

/-- Runs a request by the method of multipliers. -/
def minimize? (minimizer : Minimizer α) (base : Config α) (r : Request α σ) :
    Strict α (Session α σ) (Result α) :=
  match r.check with
  | .error fault => throw fault
  | .ok c => r.runChecked? minimizer base c

theorem check_eq_ok {r : Request α σ} {c : Checked α σ} (h : r.check = .ok c) :
    c.model.n = r.start.toPoint.length ∧ c.model.constraints = r.constraints :=
  ⟨(check_eq_ok_iff.mp h).n_eq, (check_eq_ok_iff.mp h).constraints_eq⟩

/-- **No request makes a run read or write where nothing is.** Whatever the callbacks return, and
whatever bounds and settings are asked for, the run with guarded access never gets stuck, and is
the run. -/
theorem minimize?_eq_some {minimizer : Minimizer α} (hminimizer : minimizer.KeepsLength)
    (base : Config α) (r : Request α σ) (hr : ∀ c ∈ r.constraints, c.Rectangular) (u : σ) :
    r.minimize? minimizer base { user := u }
      = some (r.minimize (backendWith minimizer base) { user := u }) := by
  rw [minimize?, minimize]
  rcases hcheck : r.check with fault | c
  · rfl
  obtain ⟨hn, hconstraints⟩ := check_eq_ok hcheck
  simp only
  rw [runChecked?, runChecked]
  rcases hprobe : c.model.probe r.start.toPoint { user := u } with ⟨fault | rows, s⟩
  · rw [Strict.bind_of_error, Eval.bind_of_error hprobe]
    · exact congrArg some hprobe
  obtain ⟨hbounds, harities, -⟩ := Model.probe_eq_ok hprobe
  have hprobed := Model.probed_of_probe rfl rfl hprobe
  have hsize : rows.size = rows.arities.sum :=
    (Model.coherent_of_arities hbounds harities hprobed.1).bounds.1
  rw [← hconstraints] at hr
  have hshaped := Model.shaped_guarded harities hr
  have hI := Session.stable_probed (α := α) (σ := σ) c.model.n rows.arities
  have hnote : ∀ (remark : Remark α) (s : Session α σ), Session.Probed c.model.n rows.arities s →
      Session.Probed c.model.n rows.arities (Session.note remark s).2 :=
    fun _ s hs ↦ hI.remarks s _ hs
  -- the probe itself runs without a property to rely on; everything behind it relies on what the
  -- probe has fixed
  rw [Strict.bind_of_ok (congrArg some hprobe), Eval.bind_of_ok hprobe]
  refine Strict.Safe.agrees (I := Session.Probed c.model.n rows.arities) (P := fun _ ↦ True) ?_ s
    hprobed
  rw [← hn, hsize]
  refine (Strict.safe_ofEval (keeps_create hnote base _)).bind fun solver hsolver ↦ ?_
  refine (Strict.safe_ofEval (Eval.keeps_modify fun s hs ↦ hI.remarks s _ hs)).bind fun _ _ ↦ ?_
  refine (Strict.safe_ofEval (keeps_configure hnote _ hsolver)).bind fun solver hsolver ↦ ?_
  refine (Strict.safe_ofEval (Session.keeps_remark hI.steady _)).bind fun _ _ ↦ ?_
  refine (safe_solve hminimizer hshaped hsolver _).bind fun outcome _ ↦ ?_
  refine (Strict.safe_ofEval (Session.keeps_remark hI.steady _)).bind fun _ _ ↦ ?_
  exact (Strict.safe_ofEval Eval.keeps_get).bind fun _ _ ↦ Strict.safe_pure trivial

/-- Two rows whose derivative loses its second row after the first call. -/
def fraying : Request Float ℕ where
  objective := .scalar fun x _ ↦ pure (x.coord 0 + x.coord 1)
  start := .vector [1.0, 2.0]
  constraints :=
    [{ kind := .inequality
       value := fun x _ ↦ pure [x.coord 0, x.coord 1]
       derivative := some fun _ _ ↦ do
        let calls ← getModify (· + 1)
        pure (if calls < 1 then ⟨2, [[1.0, 0.0], [0.0, 1.0]]⟩ else ⟨2, [[1.0, 0.0]]⟩) }]
  step := .auto

theorem minimize?_fraying :
    (LimitedMemory.minimizer : Minimizer Float).KeepsLength ∧
      (∀ c ∈ fraying.constraints, c.Rectangular) ∧
      (fraying.minimize? LimitedMemory.minimizer Config.standard { user := 0 }).map
          (fun outcome ↦ Fault.ofResult? outcome.1)
        = some (some (.jacobianShape 0 (2, 2) (1, 2))) := by
  have hr : ∀ c ∈ fraying.constraints, c.Rectangular := by
    intro c hc derivative hderivative x parameters
    rw [List.mem_singleton.mp hc] at hderivative
    cases hderivative
    have hcalls : Eval.Keeps (fun _ ↦ True) (getModify (· + 1) : Eval Float ℕ ℕ) fun _ ↦ True :=
      fun _ _ ↦ ⟨trivial, fun _ _ ↦ trivial⟩
    refine hcalls.bind fun calls _ ↦ Eval.keeps_pure ?_
    split <;> simp [Matrix.Whole]
  refine ⟨LimitedMemory.keepsLength_minimizer, hr, ?_⟩
  rw [minimize?_eq_some LimitedMemory.keepsLength_minimizer Config.standard fraying hr 0]
  exact congrArg some (by decide +kernel)

end Request

end NonlinearProgram
