import NonlinearProgram.Proofs.Effects
import NonlinearProgram.Proofs.InRange

/-!
# The stages of a request

`Request.Stage` says how far a request comes on a backend, and what has happened until then:

1. it is refused by a check, and nothing was called;
2. a constraint faults when it is probed, and only constraints were called, in their order;
3. the backend does not set up a solver;
4. the solver does not take a setting;
5. the solver runs.

Every run of a request ends at one of these stages (`Request.minimize_stage`). What is assumed of
the backend is that it is silent, as the method of multipliers is
(`MultiplierMethod.silent_backendWith`).
-/

namespace NonlinearProgram

variable {α σ : Type} [Scalar α]

/-! ## Set-up

When a solver is set up, what was checked, what the probe found and what is to be handed over are
all known. A stage behind the probe is described by these and not by the request. -/

/-- What a request has come to when it sets up its solver. -/
structure Opening (α σ : Type) where
  checked : Request.Checked α (Traced (Effect α) σ)
  /-- The values of the constraints at the start. -/
  values : List (Point α)
  /-- The state of the callbacks after the probe. -/
  user : σ

namespace Opening

/-- The numbers of rows that the probe found. -/
def arities (o : Opening α σ) : List Nat := o.values.map List.length

/-- The bounds that the backend is given. -/
def bounds (o : Opening α σ) (r : Request α σ) : Bounds α :=
  let rows := RowBounds.ofArities (r.constraints.map Constraint.kind) o.arities
  ⟨o.checked.lower, o.checked.upper, rows.lower, rows.upper⟩

/-- The session after the probe. -/
def session (o : Opening α σ) (r : Request α σ) : Session α (Traced (Effect α) σ) where
  user := ⟨Constraint.calls r.start.toPoint 0 r.constraints.length, o.user⟩
  arities := some o.arities

/-- What has happened when a solver is set up: every constraint was called once. -/
def effects (o : Opening α σ) (r : Request α σ) : List (Effect α) :=
  Constraint.calls r.start.toPoint 0 r.constraints.length ++
    [.created r.start.size o.arities.sum (o.bounds r)]

/-- The request passed its checks, and its constraints answered in a row. -/
structure Reached (o : Opening α σ) (r : Request α σ) (u : σ) : Prop where
  unrefused : r.refusal? = none
  checks : r.traced.Checks o.checked
  answered : Eval.Answered (fun c : Constraint α σ ↦ c.eval r.start.toPoint) r.constraints u
    o.values o.user

/-- Sets up the solver. -/
def create (o : Opening α σ) (r : Request α σ)
    (b : Backend α (Session α (Traced (Effect α) σ))) :
    Eval α (Session α (Traced (Effect α) σ)) b.Solver :=
  b.create r.start.size o.arities.sum o.checked.model.problem (o.bounds r)

/-- The settings for the solver, in their order. -/
def entries (o : Opening α σ) (r : Request α σ) : List (String × Setting α) :=
  (r.solverSettings o.checked.tolerance).entries

end Opening

/-! ## Stages -/

namespace Request

/-- How far a request comes on a backend, with what has happened before the solver runs, the outcome
and the state of the callbacks at the end. -/
inductive Stage (r : Request α σ) (b : Backend α (Session α (Traced (Effect α) σ))) (u : σ) :
    List (Effect α) → Except (Fault α) (Result α) → Traced (Effect α) σ → Prop
  /-- The first wrong check refuses the request, and nothing happens. -/
  | refused {fault : Fault α} (refusal : r.refusal? = some fault) :
      Stage r b u [] (.error fault) ⟨[], u⟩
  /-- A constraint faults at the start, and no later one is called. -/
  | unprobed {before after : List (Constraint α σ)} {c : Constraint α σ}
      {values : List (Point α)} {u₁ u₂ : σ} {fault : Fault α} (unrefused : r.refusal? = none)
      (constraints : r.constraints = before ++ c :: after)
      (answered : Eval.Answered (fun c : Constraint α σ ↦ c.eval r.start.toPoint) before u values
        u₁)
      (faulted : c.eval r.start.toPoint u₁ = (.error fault, u₂)) :
      Stage r b u (Constraint.calls r.start.toPoint 0 (before.length + 1)) (.error fault)
        ⟨Constraint.calls r.start.toPoint 0 (before.length + 1), u₂⟩
  /-- The backend sets up no solver. -/
  | uncreated {o : Opening α σ} {s : Session α (Traced (Effect α) σ)} {fault : Fault α}
      (reached : o.Reached r u) (failed : o.create r b.traced (o.session r) = (.error fault, s))
      (trace : s.user.trace = o.effects r) :
      Stage r b u (o.effects r) (.error fault) s.user
  /-- The solver takes the settings before this one, and not this one. -/
  | rejected {o : Opening α σ} {solver last : b.Solver}
      {s s₁ s₂ : Session α (Traced (Effect α) σ)} {accepted rest : List (String × Setting α)}
      {name : String} {value : Setting α} {reason : Rejection α} (reached : o.Reached r u)
      (created : o.create r b.traced (o.session r) = (.ok solver, s))
      (entries : o.entries r = accepted ++ (name, value) :: rest)
      (accepts : b.traced.Accepts Session.note accepted solver (r.traced.noteNames s).2 last s₁)
      (rejects : b.traced.configure last name value (Session.note (.applying name value) s₁).2
        = (.error reason, s₂))
      (trace : s₂.user.trace = o.effects r ++ accepted.map (fun e ↦ .configured e.1 e.2) ++
        [.configured name value]) :
      Stage r b u (o.effects r ++ accepted.map (fun e ↦ .configured e.1 e.2) ++
        [.configured name value]) (.error (.rejectedSetting name value reason)) s₂.user
  /-- The solver takes all settings and runs from the start. -/
  | solved {o : Opening α σ} {solver last : b.Solver}
      {s s₁ s₂ : Session α (Traced (Effect α) σ)}
      {outcome : Except (Fault α) (Point α × Summary α)} (reached : o.Reached r u)
      (created : o.create r b.traced (o.session r) = (.ok solver, s))
      (accepts : b.traced.Accepts Session.note (o.entries r) solver (r.traced.noteNames s).2 last
        s₁)
      (solves : b.traced.solve last r.start.toPoint
        (Session.note (.solving r.start.size o.arities.sum (o.entries r).length) s₁).2
        = (outcome, s₂))
      (trace : s₁.user.trace = o.effects r ++
        (o.entries r).map fun e ↦ .configured e.1 e.2) :
      Stage r b u (o.effects r ++ (o.entries r).map (fun e ↦ .configured e.1 e.2) ++
        [.solved r.start.toPoint])
        (outcome.map fun p ↦ .assemble r.start p.1 p.2 s₂.counters) s₂.user

/-! ## What a traced request comes to

Each cause that ends a request is one case: a check, a constraint at its place, the backend, a
setting, and the solver. The effects up to there are in the trace of the session that the case
leaves, because the backend is silent until it runs. -/

theorem refusal?_traced (r : Request α σ) : r.traced.refusal? = r.refusal? := by
  have hsecond : (r.traced.second.check : Except (Fault α) Unit) = r.second.check :=
    r.second.check_traced
  have hpair : Fault.ofResult? (Evaluator.pair? r.traced.objective r.traced.gradient)
      = Fault.ofResult? (Evaluator.pair? r.objective r.gradient) :=
    Evaluator.ofResult?_pair?_traced r.objective r.gradient
  rw [refusal?, refusal?, refusals, refusals, hsecond, hpair]
  rfl

theorem solverSettings_traced (r : Request α σ) (tolerance : Option α) :
    r.traced.solverSettings tolerance = r.solverSettings tolerance :=
  congrArg (Settings.forSolver r.settings tolerance) r.second.supplied_traced

theorem probe_traced {r : Request α σ} {c : Checked α (Traced (Effect α) σ)} (u : σ)
    (hunrefused : r.refusal? = none) (hcheck : r.traced.check = .ok c) :
    (∃ o : Opening α σ, o.checked = c ∧ o.Reached r u ∧
      c.model.probe r.start.toPoint { user := ⟨[], u⟩ }
        = (.ok (.ofArities (r.constraints.map Constraint.kind) o.arities), o.session r)) ∨
    ∃ t fault, c.model.probe r.start.toPoint { user := ⟨[], u⟩ } = (.error fault, { user := t }) ∧
      ∀ b, r.Stage b u t.trace (.error fault) t := by
  have hprobe : Constraint.probe c.model.constraints r.start.toPoint
      = (Constraint.tracedFrom 0 r.constraints).mapM (fun k ↦ k.eval r.start.toPoint) >>=
        fun values ↦ pure (.ofArities (r.constraints.map Constraint.kind)
          (values.map List.length)) := by
    rw [Constraint.probe_eq, ← Constraint.map_kind_tracedFrom 0 r.constraints,
      (check_eq_ok_iff.mp hcheck).constraints_eq]
    rfl
  rw [Model.probe, hprobe]
  rcases Constraint.mapM_tracedFrom r.constraints r.start.toPoint 0 ⟨[], u⟩ with
    ⟨values, u₁, hanswered, hrow⟩ | ⟨before, k, after, values, u₁, fault, u₂, hsplit, hanswered,
      hfaulted, hrow⟩
  · refine Or.inl ⟨⟨c, values, u₁⟩, rfl, ⟨hunrefused, check_eq_ok_iff.mp hcheck, hanswered⟩, ?_⟩
    rw [Eval.bind_of_ok (Session.callUser_of_eq (Eval.bind_of_ok hrow _))]
    rfl
  · refine Or.inr ⟨_, fault, Eval.bind_of_error
      (Session.callUser_of_eq (Eval.bind_of_error hrow _)) _, fun b ↦ ?_⟩
    exact .unprobed hunrefused hsplit hanswered hfaulted

theorem stage_of_reached {b : Backend α (Session α (Traced (Effect α) σ))} (hb : b.Silent)
    {r : Request α σ} {o : Opening α σ} {u : σ} (ho : o.Reached r u)
    (hprobe : o.checked.model.probe r.start.toPoint { user := ⟨[], u⟩ }
      = (.ok (.ofArities (r.constraints.map Constraint.kind) o.arities), o.session r)) :
    ∃ trace, r.Stage b u trace (r.traced.runChecked o.checked b.traced { user := ⟨[], u⟩ }).1
        (r.traced.runChecked o.checked b.traced { user := ⟨[], u⟩ }).2.user := by
  have hsize : (RowBounds.ofArities (r.constraints.map Constraint.kind) o.arities :
      RowBounds α).size = o.arities.sum := by
    simp [RowBounds.size, RowBounds.ofArities, List.length_flatMap]
  have htrace : (o.create r b.traced (o.session r)).2.user.trace = o.effects r :=
    hb.create r.start.size o.arities.sum o.checked.model (o.bounds r)
      ((o.session r).emit (.created r.start.size o.arities.sum (o.bounds r)))
  have hrun : r.traced.runChecked o.checked b.traced { user := ⟨[], u⟩ }
      = (o.create r b.traced >>= r.traced.useSolver o.checked b.traced o.arities.sum)
        (o.session r) := by
    rw [runChecked_eq]
    refine (Eval.bind_of_ok hprobe _).trans ?_
    rw [settle, hsize]
    rfl
  rw [hrun]
  rcases hcreate : o.create r b.traced (o.session r) with ⟨fault | solver, s⟩
  · rw [hcreate] at htrace
    rw [Eval.bind_of_error hcreate]
    exact ⟨o.effects r, .uncreated ho hcreate htrace⟩
  rw [hcreate] at htrace
  rw [Eval.bind_of_ok hcreate]
  have hentries : r.traced.solverSettings o.checked.tolerance
      = r.solverSettings o.checked.tolerance := r.solverSettings_traced _
  rcases r.traced.useSolver_cases o.checked b.traced o.arities.sum solver s with
    ⟨accepted, name, value, rest, last, s₁, reason, s₂, hsplit, haccepts, hrejects, huse⟩ |
    ⟨last, s₁, outcome, s₂, haccepts, hsolve, houtcome, huser⟩
  · rw [hentries] at hsplit
    have haccepted : s₁.user.trace
        = o.effects r ++ accepted.map fun e ↦ .configured e.1 e.2 := by
      rw [hb.trace_accepts haccepts, ← htrace]
      rfl
    have hrejected : s₂.user.trace = s₁.user.trace ++ [.configured name value] := by
      have hkept := hb.configure last name value
        ((Session.note (.applying name value) s₁).2.emit (.configured name value))
      exact (congrArg (fun ran ↦ ran.2.user.trace) hrejects).symm.trans hkept
    rw [haccepted] at hrejected
    rw [huse]
    exact ⟨_, .rejected ho hcreate hsplit haccepts hrejects hrejected⟩
  · rw [hentries] at haccepts hsolve
    have haccepted : s₁.user.trace
        = o.effects r ++ (o.entries r).map fun e ↦ .configured e.1 e.2 := by
      rw [hb.trace_accepts haccepts, ← htrace]
      rfl
    rw [houtcome, huser]
    exact ⟨_, .solved ho hcreate haccepts hsolve haccepted⟩

theorem Stage.eq_of_called_mem {b : Backend α (Session α (Traced (Effect α) σ))}
    {r : Request α σ} {u : σ} {trace : List (Effect α)} {outcome : Except (Fault α) (Result α)}
    {t : Traced (Effect α) σ} (h : r.Stage b u trace outcome t) {callee : Callee} {x : Point α}
    (hx : .called callee x ∈ trace) : (∃ i, callee = .constraint i) ∧ x = r.start.toPoint := by
  have heffects : ∀ o : Opening α σ, .called callee x ∈ o.effects r →
      (∃ i, callee = .constraint i) ∧ x = r.start.toPoint := by
    intro o ho
    rcases List.mem_append.mp ho with ho | ho
    · exact Constraint.eq_of_called_mem_calls ho
    · cases List.mem_singleton.mp ho
  have hsettings : ∀ (o : Opening α σ) (entries : List (String × Setting α)) (e : Effect α),
      .called callee x ∈ o.effects r ++ entries.map (fun e ↦ .configured e.1 e.2) ++ [e] →
      .called callee x ≠ e → (∃ i, callee = .constraint i) ∧ x = r.start.toPoint := by
    intro o entries e hmem hne
    rcases List.mem_append.mp hmem with hmem | hmem
    · rcases List.mem_append.mp hmem with hmem | hmem
      · exact heffects o hmem
      · obtain ⟨entry, -, hentry⟩ := List.mem_map.mp hmem
        cases hentry
    · exact absurd (List.mem_singleton.mp hmem) hne
  cases h with
  | refused _ => cases hx
  | unprobed _ _ _ _ => exact Constraint.eq_of_called_mem_calls hx
  | uncreated _ _ _ => exact heffects _ hx
  | rejected _ _ _ _ _ _ => exact hsettings _ _ _ hx nofun
  | solved _ _ _ _ _ => exact hsettings _ _ _ hx nofun

theorem exists_stage {b : Backend α (Session α (Traced (Effect α) σ))} (hb : b.Silent)
    (r : Request α σ) (u : σ) :
    ∃ trace, r.Stage b u trace (r.traced.minimize b.traced { user := ⟨[], u⟩ }).1
      (r.traced.minimize b.traced { user := ⟨[], u⟩ }).2.user := by
  have hrefusal : r.refusal? = Fault.ofResult? r.traced.check := by
    rw [ofResult?_check, refusal?_traced]
  rw [minimize]
  rcases hcheck : r.traced.check with fault | c
  · rw [hcheck] at hrefusal
    exact ⟨[], .refused hrefusal⟩
  rw [hcheck] at hrefusal
  rcases probe_traced u hrefusal hcheck with ⟨o, rfl, ho, hprobe⟩ | ⟨t, fault, hprobe, hstage⟩
  · exact stage_of_reached hb ho hprobe
  · have hran : r.traced.runChecked c b.traced { user := ⟨[], u⟩ }
        = (.error fault, { user := t }) := Eval.bind_of_error hprobe _
    simp only [hran]
    exact ⟨t.trace, hstage b⟩

/-- **What a request does, and in which order.** On a backend that calls nothing until it runs,
every run of a request ends at one of the stages: refused by the first wrong check before anything
happened, stopped by the first constraint that faults, by the backend, or by the first setting that
the solver does not take, or solved. The settings come in the order of their names, and no other
callback than the constraints is called before the solver runs. -/
theorem minimize_stage {b : Backend α (Session α (Traced (Effect α) σ))} (hb : b.Silent)
    (r : Request α σ) (u : σ) :
    ∃ trace, r.Stage b u trace (r.traced.minimize b.traced { user := ⟨[], u⟩ }).1
        (r.traced.minimize b.traced { user := ⟨[], u⟩ }).2.user ∧
      (∀ callee x, .called callee x ∈ trace →
        (∃ i, callee = .constraint i) ∧ x = r.start.toPoint) ∧
      ∀ o : Opening α σ, (o.entries r).Pairwise fun e e' ↦ e.1 < e'.1 := by
  obtain ⟨trace, hstage⟩ := exists_stage hb r u
  refine ⟨trace, hstage, fun _ _ hx ↦ hstage.eq_of_called_mem hx, fun o ↦ ?_⟩
  exact (r.solverSettings o.checked.tolerance).increasing

end Request

namespace MultiplierMethod

/-- The method of multipliers asks a problem for nothing until it runs. -/
theorem silent_backendWith (minimizer : Minimizer α) (base : Config α) :
    (backendWith minimizer base : Backend α (Session α (Traced (Effect α) σ))).Silent where
  create n m model bounds s := by
    have hkeeps := keeps_create (I := fun s' : Session α (Traced (Effect α) σ) ↦
      s'.user.trace = s.user.trace) (n := n) (m := m) (p := model.problem) (fun _ _ h ↦ h) base
      bounds
    exact (hkeeps s rfl).1
  configure _ _ _ _ := rfl

end MultiplierMethod

namespace Request

open MultiplierMethod

/-- Two constraints, and a setting that is for another solver. -/
def foreignSetting : Request Float Unit where
  objective := .scalar fun x _ ↦ pure (x.coord 0)
  start := .vector [1.0, 2.0]
  constraints :=
    [{ kind := .equality, value := fun x _ ↦ pure [x.coord 0] },
      { kind := .inequality, value := fun x _ ↦ pure [x.coord 0, x.coord 1] }]
  settings := Table.insert ∅ "linear_solver" (.text "mumps")
  step := .auto

/-- After two calls and the set-up the solver takes one setting, and not the next. -/
theorem minimize_stage_foreignSetting :
    let b : Backend Float (Session Float (Traced (Effect Float) Unit)) :=
      backendWith LimitedMemory.minimizer Config.standard
    let ran := foreignSetting.traced.minimize b.traced { user := ⟨[], ()⟩ }
    b.Silent ∧
      (∃ trace, foreignSetting.Stage b () trace ran.1 ran.2.user ∧
        (∀ callee x, .called callee x ∈ trace →
          (∃ i, callee = .constraint i) ∧ x = foreignSetting.start.toPoint) ∧
        ∀ o : Opening Float Unit, (o.entries foreignSetting).Pairwise fun e e' ↦ e.1 < e'.1) ∧
      Fault.ofResult? ran.1
        = some (.rejectedSetting "linear_solver" (.text "mumps") (.unknown "linear_solver")) ∧
      ran.2.user.trace.length = 5 :=
  ⟨silent_backendWith _ _, minimize_stage (silent_backendWith _ _) foreignSetting (),
    by decide +kernel, by decide +kernel⟩

end Request

end NonlinearProgram
