import NonlinearProgram.Proofs.Sequence
import NonlinearProgram.Request

/-!
# Requests, step by step

Six things are checked before anything of a request is called: the tolerance, second derivatives,
the pairing of objective and gradient, the number of variables, the difference step, and the bounds
of the variables. The first of them that is wrong refuses the request (`Request.refusal?`); where
none is, the checked request holds what the checks returned (`Request.Checks`).

A checked request probes its constraints, sets up a solver, and then uses it
(`Request.runChecked_eq`): it hands over the settings one by one, up to the first that is not taken
(`Backend.configureEach_cases`), and only behind the last one lets the solver run
(`Request.useSolver_cases`).
-/

namespace NonlinearProgram

variable {α σ : Type}

theorem Fault.ofResult?_bind {β γ : Type} (x : Except (Fault α) β) (f : β → Except (Fault α) γ) :
    Fault.ofResult? (x >>= f) = match x with
      | .error fault => some fault
      | .ok b => Fault.ofResult? (f b) := by
  cases x <;> rfl

/-! ## Settings

A solver takes the settings one at a time and may refuse each of them. A list of settings that were
taken is an induction on its own, since the solver that takes the second setting is the one that the
first has made. -/

namespace Backend

theorem configureAll_apply (b : Backend α σ) (note : Remark α → StateM σ Unit)
    (settings : Settings α) (solver : b.Solver) (s : σ) :
    b.configureAll note settings solver s =
      let r := b.configureEach note settings.entries solver s
      (r.1.2.map fun _ ↦ r.1.1, r.2) := rfl

/-- Settings that a solver took one after the other, each with a remark before it. -/
inductive Accepts (b : Backend α σ) (note : Remark α → StateM σ Unit) :
    List (String × Setting α) → b.Solver → σ → b.Solver → σ → Prop
  | nil (solver : b.Solver) (s : σ) : Accepts b note [] solver s solver s
  | cons {name : String} {value : Setting α} {entries : List (String × Setting α)}
      {solver next last : b.Solver} {s s₁ s₂ : σ}
      (first : b.configure solver name value (note (.applying name value) s).2 = (.ok next, s₁))
      (rest : Accepts b note entries next s₁ last s₂) :
      Accepts b note ((name, value) :: entries) solver s last s₂

variable {b : Backend α σ} {note : Remark α → StateM σ Unit}

theorem configureEach_cons (name : String) (value : Setting α)
    (entries : List (String × Setting α)) (solver : b.Solver) (s : σ) :
    b.configureEach note ((name, value) :: entries) solver s =
      match b.configure solver name value (note (.applying name value) s).2 with
      | (.ok next, s₁) => b.configureEach note entries next s₁
      | (.error reason, s₁) => ((solver, .error (.rejectedSetting name value reason)), s₁) := by
  rw [configureEach, Eval.state_bind_apply, Eval.state_bind_apply]
  rcases b.configure solver name value (note (.applying name value) s).2 with ⟨reason | next, s₁⟩
    <;> rfl

/-- Either all settings are accepted, or those before the first one that is not. Induction on the
settings. -/
theorem configureEach_cases (entries : List (String × Setting α)) (solver : b.Solver) (s : σ) :
    (∃ last s', b.Accepts note entries solver s last s' ∧
      b.configureEach note entries solver s = ((last, .ok ()), s')) ∨
    ∃ accepted name value rest last s₁ reason s',
      entries = accepted ++ (name, value) :: rest ∧
      b.Accepts note accepted solver s last s₁ ∧
      b.configure last name value (note (.applying name value) s₁).2 = (.error reason, s') ∧
      b.configureEach note entries solver s
        = ((last, .error (.rejectedSetting name value reason)), s') := by
  induction entries generalizing solver s with
  | nil => exact Or.inl ⟨solver, s, .nil solver s, rfl⟩
  | cons entry entries ih =>
    obtain ⟨name, value⟩ := entry
    rw [configureEach_cons]
    rcases hfirst : b.configure solver name value (note (.applying name value) s).2
      with ⟨reason | next, s₁⟩
    · exact Or.inr ⟨[], name, value, entries, solver, s, reason, s₁, rfl, .nil solver s, hfirst,
        rfl⟩
    · rcases ih next s₁ with ⟨last, s', haccepts, hall⟩ |
        ⟨accepted, name', value', rest, last, s₂, reason, s', rfl, haccepts, hrejected, hall⟩
      · exact Or.inl ⟨last, s', .cons hfirst haccepts, hall⟩
      · exact Or.inr ⟨(name, value) :: accepted, name', value', rest, last, s₂, reason, s', rfl,
          .cons hfirst haccepts, hrejected, hall⟩

end Backend

variable [Scalar α]

namespace Request

/-! ## Checks

None of the checks calls anything, so a request that is refused leaves the callbacks and the backend
as they are. -/

/-- What each check finds, in the order in which they are made. -/
def refusals (r : Request α σ) : List (Option (Fault α)) :=
  [Fault.ofResult? (Check.tolerance r.tolerance),
    Fault.ofResult? r.second.check,
    Fault.ofResult? (Evaluator.pair? r.objective r.gradient),
    if r.start.size = 0 then some .noVariables else none,
    Fault.ofResult? r.step.check,
    Fault.ofResult? (Box.ofPairs r.bounds r.start.size)]

/-- The fault of the first check that a request does not pass. -/
def refusal? (r : Request α σ) : Option (Fault α) := r.refusals.findSome? id

/-- A request that passes all checks, with what they returned. -/
structure Checks (r : Request α σ) (c : Checked α σ) : Prop where
  tolerance : Check.tolerance r.tolerance = .ok c.tolerance
  second : r.second.check = .ok ()
  evaluator : Evaluator.pair? r.objective r.gradient = .ok c.model.evaluator
  size_ne_zero : r.start.size ≠ 0
  step : r.step.check = .ok ()
  box : Box.ofPairs r.bounds r.start.size = .ok (c.lower, c.upper)
  n_eq : c.model.n = r.start.size
  parameters_eq : c.model.parameters = r.parameters.mergeNamed r.extra
  constraints_eq : c.model.constraints = r.constraints
  step_eq : c.model.step = r.step

variable {r : Request α σ} {c : Checked α σ}

theorem check_eq_ok_iff : r.check = .ok c ↔ r.Checks c := by
  constructor
  · intro h
    obtain ⟨tolerance, htolerance, h⟩ := Except.bind_eq_ok.mp h
    obtain ⟨model, hmodel, h⟩ := Except.bind_eq_ok.mp h
    obtain ⟨⟨lower, upper⟩, hbox, h⟩ := Except.bind_eq_ok.mp h
    obtain ⟨_, hsecond, hmodel⟩ := Except.bind_eq_ok.mp hmodel
    obtain ⟨evaluator, hevaluator, hmodel⟩ := Except.bind_eq_ok.mp hmodel
    simp only at hmodel
    split at hmodel
    · cases hmodel
    · rename_i hn
      obtain ⟨_, hstep, hmodel⟩ := Except.bind_eq_ok.mp hmodel
      cases hmodel
      cases h
      exact ⟨htolerance, hsecond, hevaluator, hn, hstep, hbox, rfl, rfl, rfl, rfl⟩
  · intro h
    obtain ⟨⟨evaluator, parameters, constraints, step, n⟩, tolerance, lower, upper⟩ := c
    obtain ⟨htolerance, hsecond, hevaluator, hn, hstep, hbox, rfl, rfl, rfl, rfl⟩ := h
    have hmodel : Model.make r.objective r.gradient r.second r.start.size
        (r.parameters.mergeNamed r.extra) r.constraints r.step
        = .ok ⟨evaluator, r.parameters.mergeNamed r.extra, r.constraints, r.step,
          r.start.size⟩ := by
      refine Except.bind_eq_ok.mpr ⟨_, hsecond, ?_⟩
      refine Except.bind_eq_ok.mpr ⟨_, hevaluator, ?_⟩
      simp only [if_neg hn]
      exact Except.bind_eq_ok.mpr ⟨_, hstep, rfl⟩
    refine Except.bind_eq_ok.mpr ⟨_, htolerance, ?_⟩
    refine Except.bind_eq_ok.mpr ⟨_, hmodel, ?_⟩
    exact Except.bind_eq_ok.mpr ⟨_, hbox, rfl⟩

/-- The first wrong check decides, and nothing behind it is looked at. -/
theorem ofResult?_check (r : Request α σ) : Fault.ofResult? r.check = r.refusal? := by
  have hsize : r.start.toPoint.length = r.start.size := rfl
  rw [refusal?, refusals, check]
  simp only [Model.make, Fault.ofResult?_bind, bind_assoc, hsize]
  rcases Check.tolerance r.tolerance with fault | tolerance
  · rfl
  rcases r.second.check with fault | _
  · rfl
  rcases Evaluator.pair? r.objective r.gradient with fault | evaluator
  · rfl
  by_cases hn : r.start.size = 0
  · simp only [if_pos hn]
    rfl
  simp only [if_neg hn]
  rcases r.step.check with fault | _
  · rfl
  rcases Box.ofPairs r.bounds r.start.size with fault | sides <;> rfl

/-! ## Solvers -/

/-- What a checked request does with a solver that was set up for `m` rows: it hands over the
settings and runs it. -/
def useSolver (r : Request α σ) (c : Checked α σ) (b : Backend α (Session α σ)) (m : Nat)
    (solver : b.Solver) : Eval α (Session α σ) (Result α) := do
  ExceptT.lift r.noteNames
  let settings := r.solverSettings c.tolerance
  let solver ← b.configureAll Session.note settings solver
  Session.remark (.solving r.start.size m settings.size)
  let (final, summary) ← b.solve solver r.start.toPoint
  Session.remark (.finished summary.status summary.message)
  pure (.assemble r.start final summary (← get).counters)

/-- What a checked request does with the bounds of its rows: it sets up a solver and uses it. -/
def settle (r : Request α σ) (c : Checked α σ) (b : Backend α (Session α σ)) (rows : RowBounds α) :
    Eval α (Session α σ) (Result α) := do
  let solver ← b.create r.start.size rows.size c.model.problem
    ⟨c.lower, c.upper, rows.lower, rows.upper⟩
  r.useSolver c b rows.size solver

theorem runChecked_eq (r : Request α σ) (c : Checked α σ) (b : Backend α (Session α σ)) :
    r.runChecked c b = c.model.probe r.start.toPoint >>= r.settle c b := rfl

theorem useSolver_cases (r : Request α σ) (c : Checked α σ) (b : Backend α (Session α σ)) (m : Nat)
    (solver : b.Solver) (s : Session α σ) :
    (∃ accepted name value rest last s₁ reason s₂,
      (r.solverSettings c.tolerance).entries = accepted ++ (name, value) :: rest ∧
      b.Accepts Session.note accepted solver (r.noteNames s).2 last s₁ ∧
      b.configure last name value (Session.note (.applying name value) s₁).2 = (.error reason, s₂) ∧
      r.useSolver c b m solver s = (.error (.rejectedSetting name value reason), s₂)) ∨
    ∃ last s₁ outcome s₂,
      b.Accepts Session.note (r.solverSettings c.tolerance).entries solver (r.noteNames s).2 last
        s₁ ∧
      b.solve last r.start.toPoint
        (Session.note (.solving r.start.size m (r.solverSettings c.tolerance).size) s₁).2
        = (outcome, s₂) ∧
      (r.useSolver c b m solver s).1
        = outcome.map (fun p ↦ .assemble r.start p.1 p.2 s₂.counters) ∧
      (r.useSolver c b m solver s).2.user = s₂.user := by
  rw [useSolver, Eval.bind_of_ok (Eval.lift_apply _ s)]
  rcases b.configureEach_cases (r.solverSettings c.tolerance).entries solver (r.noteNames s).2 with
    ⟨last, s₁, haccepts, hall⟩ | ⟨accepted, name, value, rest, last, s₁, reason, s₂, hsplit,
      haccepts, hrejects, hall⟩
  · refine Or.inr ?_
    have hconfigure : b.configureAll Session.note (r.solverSettings c.tolerance) solver
        (r.noteNames s).2 = (.ok last, s₁) := by
      rw [Backend.configureAll_apply, hall]
      rfl
    have hremark : Session.remark
        (.solving r.start.size m (r.solverSettings c.tolerance).size) s₁ = (.ok (), _) :=
      Eval.lift_apply _ s₁
    rw [Eval.bind_of_ok hconfigure, Eval.bind_of_ok hremark]
    rcases hsolve : b.solve last r.start.toPoint
        (Session.note (.solving r.start.size m (r.solverSettings c.tolerance).size) s₁).2
      with ⟨fault | ⟨final, summary⟩, s₂⟩
    · rw [Eval.bind_of_error hsolve]
      exact ⟨last, s₁, .error fault, s₂, haccepts, hsolve, rfl, rfl⟩
    · rw [Eval.bind_of_ok hsolve]
      exact ⟨last, s₁, .ok (final, summary), s₂, haccepts, hsolve, rfl, rfl⟩
  · refine Or.inl ⟨accepted, name, value, rest, last, s₁, reason, s₂, hsplit, haccepts, hrejects,
      Eval.bind_of_error ?_ _⟩
    rw [Backend.configureAll_apply, hall]
    rfl

end Request

end NonlinearProgram
