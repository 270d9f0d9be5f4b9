import NonlinearProgram.Proofs.Explained
import NonlinearProgram.Proofs.FirstFault
import NonlinearProgram.Proofs.InRange

/-!
# Where a fault comes from

A request that has no result has failed in one of two ways. Either it was refused: a check of its
own parts or of its settings failed, and all that was called by then is the constraints, once each,
to count their values. Or some reply of a callback was wrong, and the fault says which: a fault of
its own, or a shape that does not fit. Which of the two it was can be told from the fault alone
(`Request.isConfiguration_iff`).

Nothing else can be at fault. The bounds that a solver is set up for are as many as they have to be,
and the point that it starts from has a coordinate for each variable; the tolerances of a descent
are never negative; and all that a run on a model raises is raised by an operation of the model
(`MultiplierMethod.run_attests`).
-/

namespace NonlinearProgram

variable {α σ β : Type}

/-! ## Refusals

A check is pure, and its fault is one of configuration. This is closed under sequences, so that it
is enough to look at the checks one by one. -/

/-- A check that fails only for a mistake in a request. -/
def Check.Refuses (outcome : Except (Fault α) β) : Prop :=
  ∀ fault, outcome = .error fault → fault.isConfiguration = true

namespace Check

theorem refuses_ok (b : β) : Refuses (.ok b : Except (Fault α) β) := nofun

theorem refuses_error {fault : Fault α} (h : fault.isConfiguration = true) :
    Refuses (.error fault : Except (Fault α) β) := by
  intro found hfound
  cases hfound
  exact h

theorem Refuses.bind {γ : Type} {outcome : Except (Fault α) β} {f : β → Except (Fault α) γ}
    (h : Refuses outcome) (hf : ∀ b, Refuses (f b)) : Refuses (outcome >>= f) := by
  cases outcome with
  | error fault => exact refuses_error (h fault rfl)
  | ok b => exact hf b

theorem refuses_tolerance [Scalar α] (t : Option α) : Refuses (tolerance t) := by
  rcases t with _ | t
  · exact refuses_ok none
  · rw [tolerance]
    split
    · exact refuses_ok none
    split
    · exact refuses_error rfl
    split
    · exact refuses_error rfl
    · exact refuses_ok (some t)

theorem refuses_step [Scalar α] (h : Step α) : Refuses h.check := by
  rcases h with h | _
  · rw [Step.check, step]
    split
    · exact refuses_error rfl
    split
    · exact refuses_error rfl
    · exact refuses_ok ()
  · exact refuses_ok ()

theorem refuses_count (expected found : ℕ) :
    Refuses (count expected found : Except (Fault α) Unit) := by
  rw [count]
  split
  · exact refuses_ok ()
  · exact refuses_error rfl

theorem refuses_second (s : SecondOrder α σ) :
    Refuses (s.check : Except (Fault α) Unit) := by
  rw [SecondOrder.check]
  split
  · exact refuses_error rfl
  split
  · exact refuses_error rfl
  · exact refuses_ok ()

theorem refuses_pair (f : Objective α σ) (g : Gradient α σ) : Refuses (Evaluator.pair? f g) := by
  cases f <;> cases g <;> first | exact refuses_ok _ | exact refuses_error rfl

theorem refuses_sides [Scalar α] (index : ℕ) (pairs : List (α × α)) :
    Refuses (Box.sides index pairs) := by
  induction pairs generalizing index with
  | nil => exact refuses_ok []
  | cons pair pairs ih =>
    have hside : Refuses (Box.side index pair) := by
      rw [Box.side]
      split
      · exact refuses_error rfl
      · exact refuses_ok _
    exact hside.bind fun first ↦ (ih (index + 1)).bind fun others ↦ refuses_ok (first :: others)

theorem refuses_ofPairs [Scalar α] (pairs : Option (List (α × α))) (n : ℕ) :
    Refuses (Box.ofPairs pairs n) := by
  rcases pairs with _ | pairs
  · exact refuses_ok _
  · exact (refuses_count n pairs.length).bind fun _ ↦ (refuses_sides 0 pairs).bind
      fun _ ↦ refuses_ok _

theorem refuses_make [Scalar α] (f : Objective α σ) (g : Gradient α σ) (second : SecondOrder α σ)
    (n : ℕ) (parameters : Parameters α) (constraints : List (Constraint α σ)) (h : Step α) :
    Refuses (Model.make f g second n parameters constraints h) := by
  refine (refuses_second second).bind fun _ ↦ (refuses_pair f g).bind fun evaluator ↦ ?_
  simp only
  split
  · exact refuses_error rfl
  · exact (refuses_step h).bind fun _ ↦ refuses_ok _

end Check

theorem Request.refuses_check [Scalar α] (r : Request α σ) : Check.Refuses r.check :=
  (Check.refuses_tolerance r.tolerance).bind fun _ ↦
    (Check.refuses_make r.objective r.gradient r.second _ _ r.constraints r.step).bind fun _ ↦
      (Check.refuses_ofPairs r.bounds _).bind fun _ ↦ Check.refuses_ok _

/-! ## Evidence

The first fault of a run is the fault of a call that is on record, and a call of a problem that
attests leaves its evidence in the state. Both are said over a recorded problem, whose state holds
the record beside that of the problem. -/

section Evidence

variable {I J : σ → Prop} {F : Fault α → σ → Prop}

/-- A fault leaves evidence in the state, where a property holds, and no evidence is ever lost. -/
def Eval.Attests (J : σ → Prop) (F : Fault α → σ → Prop) (act : Eval α σ β) : Prop :=
  ∀ s, J s → J (act s).2 ∧ (∀ fault, F fault s → F fault (act s).2) ∧
    ∀ fault, (act s).1 = .error fault → F fault (act s).2

/-- The operations of a problem leave evidence of their faults at points with `n` coordinates. -/
structure Problem.Attests (p : Problem α σ) (J : σ → Prop) (F : Fault α → σ → Prop) (n : ℕ) :
    Prop where
  objective : ∀ x, x.length = n → Eval.Attests J F (p.objective x)
  gradient : ∀ x, x.length = n → Eval.Attests J F (p.gradient x)
  constraints : ∀ x, x.length = n → Eval.Attests J F (p.constraints x)
  jacobian : ∀ x, x.length = n → Eval.Attests J F (p.jacobian x)
  intermediate : ∀ report s, J s →
    J (p.intermediate report s).2 ∧ ∀ fault, F fault s → F fault (p.intermediate report s).2
  note : ∀ remark s, J s →
    J (p.note remark s).2 ∧ ∀ fault, F fault s → F fault (p.note remark s).2

/-- A recorded problem in whose state there is evidence of the first fault on record. -/
structure Recorded.Attested (I J : σ → Prop) (F : Fault α → σ → Prop) (r : Recorded α σ) :
    Prop where
  shapes : I r.problem
  property : J r.problem
  evidence : ∀ fault, firstFault r.events = some fault → F fault r.problem

theorem Recorded.keeps_call {P : β → Prop} {act : Eval α σ β} (h : Eval.Keeps I act P)
    (hF : Eval.Attests J F act) (operation : Operation) (x : Point α) :
    Eval.Keeps (Attested I J F) (call operation x act) P := by
  intro r hr
  obtain ⟨hkept, hanswer⟩ := h r.problem hr.shapes
  obtain ⟨hproperty, hstays, hfault⟩ := hF r.problem hr.property
  refine ⟨⟨hkept, hproperty, fun fault hfirst ↦ ?_⟩, hanswer⟩
  have hevents : firstFault (r.events ++ [.called operation x
      (Fault.ofResult? (act r.problem).1)]) = some fault := hfirst
  rw [firstFault_append, firstFault_called] at hevents
  rcases hbefore : firstFault r.events with _ | first
  · rw [hbefore, Option.none_or, Fault.ofResult?_eq_some] at hevents
    exact hfault fault hevents
  · rw [hbefore, Option.some_or] at hevents
    exact hstays fault (hr.evidence fault (hbefore.trans hevents))

/-- A recorded problem has the shapes of the problem, and evidence of its first fault. -/
theorem GuardedProblem.Shaped.recorded {p : GuardedProblem α σ} {n m : ℕ} (hp : p.Shaped I n m)
    (hF : p.toProblem.Attests J F n) :
    (⟨p.toProblem.recorded, fun x ↦ Strict.ofEval (p.toProblem.recorded.jacobian x)⟩ :
      GuardedProblem α (Recorded α σ)).Shaped (Recorded.Attested I J F) n m where
  objective x hx := Recorded.keeps_call (hp.objective x hx) (hF.objective x hx) _ _
  gradient x hx := Recorded.keeps_call (hp.gradient x hx) (hF.gradient x hx) _ _
  constraints x hx := Recorded.keeps_call (hp.constraints x hx) (hF.constraints x hx) _ _
  jacobian x hx := Strict.safe_ofEval
    (Recorded.keeps_call (hp.jacobian x hx).keeps (hF.jacobian x hx) _ _)
  intermediate report r hr := by
    obtain ⟨hproperty, hstays⟩ := hF.intermediate report r.problem hr.property
    refine ⟨hp.intermediate report r.problem hr.shapes, hproperty, fun fault hfirst ↦ ?_⟩
    refine hstays fault (hr.evidence fault ?_)
    -- a report is no fault
    have hevents : firstFault (r.events ++ [.reported report
        (p.toProblem.intermediate report r.problem).1]) = some fault := hfirst
    rw [firstFault_append] at hevents
    exact (Option.or_none).symm.trans hevents
  note remark r hr :=
    ⟨hp.note remark r.problem hr.shapes, (hF.note remark r.problem hr.property).1,
      fun fault hfirst ↦ (hF.note remark r.problem hr.property).2 fault (hr.evidence fault hfirst)⟩

/-- There is evidence of the fault that a run ends with. -/
theorem MultiplierMethod.run_attests [Scalar α] {minimizer : Minimizer α} {c : Config α}
    {search : Point α → Query α (Except (Breakdown α) (Descent α))}
    (hsearch : minimizer (stopping c) = .ok search) (hminimizer : minimizer.KeepsLength)
    {p : GuardedProblem α σ} {l : Layout α} {n m : ℕ} (hp : p.Shaped I n m)
    (hF : p.toProblem.Attests J F n) (hl : l.Fits n m) {x : Point α} (hx : x.length = n)
    {s s' : σ} (hI : I s) (hJ : J s) {fault : Fault α}
    (h : run minimizer p.toProblem c l x s = (.error fault, s')) : F fault s' := by
  obtain ⟨events, hrun, hfault⟩ := follows_run hsearch p.toProblem l x [] s
  have hkept := ((safe_run (hp.recorded hF) hl hminimizer (c := c) hx).keeps ⟨[], s⟩
    ⟨hI, hJ, fun _ h ↦ nomatch h⟩).1
  rw [hrun, h, List.nil_append] at hkept
  rw [h] at hfault
  exact hkept.evidence fault hfault.symm

end Evidence

/-! ## Evidence in the record -/

/-- An explained computation leaves evidence of its fault in the record. -/
theorem Session.Explained.attests {n : ℕ} {a : List ℕ}
    {act : Eval α (Session α (Traced (Heard α) σ)) β}
    (h : ∀ record, Accounts record a → Explained n (some a) record act) :
    Eval.Attests (fun s ↦ s.arities = some a ∧ Accounts s.user.trace a)
      (fun fault s ↦ s.Explains n fault) act := by
  intro s hs
  obtain ⟨hheard, hfault⟩ := h s.user.trace hs.2 s ⟨hs.1, List.Subset.refl _⟩
  refine ⟨⟨hheard.arities, fun i k hk ↦ ?_⟩, fun fault hF ↦ ?_, hfault⟩
  · obtain ⟨x, hx⟩ := hs.2 i k hk
    exact ⟨x, hheard.record hx⟩
  · exact ⟨hF.shown.mono hheard.record, hF.plain⟩

variable [Scalar α]

theorem Model.attests {m : Model α σ} {a : List ℕ} (harities : a.length = m.constraints.length)
    (hm : m.Plain) :
    m.heard.problem.Attests (fun s ↦ s.arities = some a ∧ Accounts s.user.trace a)
      (fun fault s ↦ s.Explains m.n fault) m.n where
  objective x _ := Session.Explained.attests fun _ _ ↦ explained_objective hm.evaluator x
  gradient x _ := Session.Explained.attests fun _ _ ↦ explained_gradient hm.evaluator x
  constraints x _ :=
    Session.Explained.attests fun _ hrecord ↦ explained_stackedValues harities hm hrecord x
  jacobian _ hx :=
    Session.Explained.attests fun _ hrecord ↦ explained_stackedBlocks harities hm hrecord hx
  intermediate _ _ hs := ⟨hs, fun _ hF ↦ ⟨hF.shown, hF.plain⟩⟩
  note _ _ hs := ⟨hs, fun _ hF ↦ ⟨hF.shown, hF.plain⟩⟩

omit [Scalar α] in
theorem Constraint.Rectangular.heard {c : Constraint α σ} (hc : c.Rectangular) (i : ℕ) :
    (c.heard i).Rectangular := by
  intro derivative hderivative x parameters t _
  obtain ⟨f, hf, rfl⟩ := Option.map_eq_some_iff.mp hderivative
  exact ⟨trivial, (hc f hf x parameters t.state trivial).2⟩

omit [Scalar α] in
theorem Constraint.rectangular_heardAll {cs : List (Constraint α σ)}
    (h : ∀ c ∈ cs, c.Rectangular) : ∀ c ∈ heardAll cs, c.Rectangular := by
  intro c hc
  obtain ⟨p, hp, rfl⟩ := List.mem_map.mp hc
  exact (h p.1 (List.fst_mem_of_mem_zipIdx hp)).heard p.2

/-! ## Solvers -/

/-- The record explains the fault of a solver that was set up for a model. -/
theorem MultiplierMethod.explains_of_solve {minimizer : Minimizer Float}
    (hkeeps : minimizer.KeepsLength) (htakes : TakesNonnegative minimizer) {m : Model Float σ}
    (hm : m.Plain) (hrectangular : ∀ c ∈ m.constraints, c.Rectangular) {a : List ℕ}
    (harities : a.length = m.constraints.length)
    {solver : Solver Float (Session Float (Traced (Heard Float) σ))}
    (hsolver : solver.Fits m.heard.problem m.n a.sum) {x : Point Float} (hx : x.length = m.n)
    {s s' : Session Float (Traced (Heard Float) σ)} {fault : Fault Float}
    (h : solver.solve minimizer x s = (.error fault, s')) (hs : Session.Probed m.n a s)
    (hrecord : Accounts s.user.trace a) : s'.Explains m.n fault := by
  obtain ⟨search, hsearch⟩ := htakes (stopping solver.config)
    (stopping_nonneg solver.config).1 (stopping_nonneg solver.config).2
  have hshaped := Model.shaped_guarded (m := m.heard)
    (harities.trans m.length_constraints_heard.symm) (Constraint.rectangular_heardAll hrectangular)
  rw [Solver.solve_of_length (hsolver.layout.n_eq.trans hx.symm), hsolver.problem] at h
  exact run_attests hsearch hkeeps hshaped (Model.attests harities hm) hsolver.layout hx hs
    ⟨hs.1, hrecord⟩ h

/-! ## Requests

A request that passes its checks ends in its probe, in a setting that is refused, or in the run of
the solver. Only the middle one is a mistake in the request, and nothing but the probe has been
called by then. -/

def Objective.Plain : Objective α σ → Prop
  | .scalar value => value.Plain
  | .combined both => both.Plain

def Gradient.Plain : Gradient α σ → Prop
  | .explicit gradient => gradient.Plain
  | _ => True

/-- No callback of a request that can be called fails with a mistake in a request. -/
structure Request.Plain (r : Request α σ) : Prop where
  objective : r.objective.Plain
  gradient : r.gradient.Plain
  constraints : ∀ c ∈ r.constraints, c.Plain

omit [Scalar α] in
theorem Evaluator.plain_of_pair? {f : Objective α σ} {g : Gradient α σ} {e : Evaluator α σ}
    (hf : f.Plain) (hg : g.Plain) (h : pair? f g = .ok e) : e.Plain := by
  cases f <;> cases g <;> cases h
  · exact hf
  · exact ⟨hf, hg⟩
  · exact hf

theorem Request.Plain.model {r : Request α σ} (hr : r.Plain) {c : Request.Checked α σ}
    (hc : r.Checks c) : c.model.Plain where
  evaluator := Evaluator.plain_of_pair? hr.objective hr.gradient hc.evaluator
  constraints := hc.constraints_eq ▸ hr.constraints

namespace Request

open MultiplierMethod

section Float

variable {minimizer : Minimizer Float} (hkeeps : minimizer.KeepsLength)
  (htakes : TakesNonnegative minimizer) (base : Config Float) {r : Request Float σ}
  (hr : r.Plain) (hrectangular : ∀ c ∈ r.constraints, c.Rectangular) (u : σ)

include hkeeps htakes hr hrectangular

theorem refused_or_explained_of_settle {c : Checked Float σ} (hc : r.Checks c)
    {rows : RowBounds Float} {s s' : Session Float (Traced (Heard Float) σ)}
    (hprobe : c.model.heard.probe r.start.toPoint { user := ⟨[], u⟩ } = (.ok rows, s))
    {fault : Fault Float}
    (h : r.heard.settle c.heard (backendWith minimizer base) rows s = (.error fault, s')) :
    (fault.isConfiguration = true ∧ s'.user = s.user) ∨ s'.Explains r.start.size fault := by
  obtain ⟨hbounds, harities, -⟩ := Model.probe_eq_ok hprobe
  have hprobed := Model.probed_of_probe rfl rfl hprobe
  -- the solver is set up, since there are as many bounds as there have to be
  obtain ⟨hrowLower, hrowUpper⟩ := (Model.coherent_of_arities hbounds harities hprobed.1).bounds
  obtain ⟨hlower, hupper⟩ := hc.length_bounds
  have hcreate : create base r.start.size rows.size c.model.heard.problem
      ⟨c.lower, c.upper, rows.lower, rows.upper⟩ s = _ :=
    create_of_length hlower hupper rfl (hrowUpper.1.trans hrowLower.symm) s
  replace h := (Eval.bind_of_ok hcreate _).symm.trans h
  rcases r.heard.useSolver_cases c.heard (backendWith minimizer base) rows.size
      (⟨c.model.heard.problem, .ofBounds r.start.size ⟨c.lower, c.upper, rows.lower, rows.upper⟩,
        base⟩ : Solver Float (Session Float (Traced (Heard Float) σ)))
      (c.model.heard.problem.note (.created r.start.size rows.size _) s).2 with
    ⟨_, name, value, _, _, s₂, reason, s₃, -, haccepts, hreject, huse⟩ |
    ⟨last, s₂, outcome, s₃, haccepts, hsolve, houtcome, huser⟩
  -- a setting was refused, and settings call nothing
  · obtain ⟨-, -, remarks, rfl⟩ := accepts_backendWith haccepts
    cases (Prod.mk.inj hreject).2
    cases h.symm.trans huse
    exact .inl ⟨rfl, rfl⟩
  obtain ⟨hproblem, hlayout, remarks, rfl⟩ := accepts_backendWith haccepts
  replace houtcome := (congrArg Prod.fst h).symm.trans houtcome
  replace huser := (congrArg (fun ran ↦ ran.2.user) h).symm.trans huser
  rcases outcome with found | answer
  · cases houtcome
    have hfits : (c.layout rows).Fits c.model.n rows.arities.sum := hc.fits_layout hrowLower
    rw [Checked.layout, hc.n_eq] at hfits
    have hsolver : Solver.Fits last c.model.heard.problem c.model.n rows.arities.sum :=
      ⟨hproblem, by rw [hlayout, hc.n_eq]; exact hfits⟩
    have hexplains := explains_of_solve hkeeps htakes (hr.model hc)
      (hc.constraints_eq ▸ hrectangular) (harities.trans c.model.length_constraints_heard) hsolver
      hc.n_eq.symm hsolve hprobed (Model.probeRecord_of_probe rfl hprobe).accounts
    rw [hc.n_eq] at hexplains
    exact .inr ⟨huser ▸ hexplains.shown, hexplains.plain⟩
  · cases houtcome

/-- A request without a result was refused, with no more calls than those of the probe, or the
record explains the fault. -/
theorem refused_or_explained {fault : Fault Float}
    {s' : Session Float (Traced (Heard Float) σ)}
    (h : r.heard.minimize (backendWith minimizer base) { user := ⟨[], u⟩ } = (.error fault, s')) :
    (fault.isConfiguration = true ∧ ∃ a, ProbeRecord s'.user.trace r.start.toPoint a) ∨
      s'.Explains r.start.size fault := by
  rw [minimize, check_heard] at h
  rcases hcheck : r.check with found | c
  -- a check failed, and nothing was called
  · rw [hcheck] at h
    cases h
    refine .inl ⟨r.refuses_check fault hcheck, [], fun e ↦ ?_⟩
    refine iff_of_false List.not_mem_nil ?_
    rintro ⟨_, _, h, -⟩
    cases h
  have hchecks := check_eq_ok_iff.mp hcheck
  rw [hcheck] at h
  simp only [Except.map, runChecked_eq] at h
  rcases hprobe : c.model.heard.probe r.start.toPoint { user := ⟨[], u⟩ } with ⟨found | rows, s⟩
  · cases (Eval.bind_of_error hprobe _).symm.trans h
    exact .inr (Model.explains_of_probe (hr.model hchecks).constraints _ hprobe)
  · have hrecord : ProbeRecord s.user.trace r.start.toPoint rows.arities :=
      Model.probeRecord_of_probe rfl hprobe
    rcases refused_or_explained_of_settle hkeeps htakes base hr hrectangular u hchecks hprobe
      ((Eval.bind_of_ok hprobe _).symm.trans h) with ⟨hconfiguration, huser⟩ | hexplains
    · exact .inl ⟨hconfiguration, rows.arities, huser ▸ hrecord⟩
    · exact .inr hexplains

/-- **The fault tells the phase.** Callbacks may fail in any pattern, as long as they do not fail
with a mistake in a request themselves. If there is no result, then the fault is a configuration
fault exactly if no reply of a callback was wrong: none failed, and no gradient, derivative or
number of values failed its check. And then no callback but those of constraints has replied. The
replies are those of the run, since the request that is heard ends with the same fault. -/
theorem isConfiguration_iff {fault : Fault Float}
    (h : (r.minimize (backendWith minimizer base) { user := u }).1 = .error fault) :
    (r.heard.minimize (backendWith minimizer base) { user := ⟨[], u⟩ }).1 = .error fault ∧
      (fault.isConfiguration = true ↔
        ¬∃ found, Shown r.start.size (r.replies minimizer base u) found) ∧
      (fault.isConfiguration = true →
        ∀ e ∈ r.replies minimizer base u, ∃ i, e.callee = .constraint i) := by
  obtain ⟨houtcome, -⟩ := r.minimize_heard minimizer base ⟨[], u⟩
  have hheard := houtcome.symm.trans h
  refine ⟨hheard, ?_⟩
  rcases refused_or_explained hkeeps htakes base hr hrectangular u (Prod.ext hheard rfl) with
    ⟨hconfiguration, a, hrecord⟩ | hexplains
  · refine ⟨iff_of_true hconfiguration fun ⟨found, hfound⟩ ↦ hrecord.not_shown _ found hfound,
      fun _ e he ↦ ?_⟩
    obtain ⟨i, k, -, rfl⟩ := (hrecord e).mp he
    exact ⟨i, rfl⟩
  · have hconfiguration : ¬fault.isConfiguration = true := by
      rw [hexplains.plain]
      exact Bool.false_ne_true
    exact ⟨iff_of_false hconfiguration (not_not_intro ⟨fault, hexplains.shown⟩),
      fun h ↦ absurd h hconfiguration⟩

end Float

/-- A gradient that never has an entry, under some settings. -/
def emptyGradient (settings : Settings Float) : Request Float Unit where
  objective := .scalar fun x _ ↦ pure (x.coord 0)
  start := .vector [1.0]
  gradient := .explicit fun _ _ ↦ pure []
  constraints := [{ kind := .inequality, value := fun x _ ↦ pure [x.coord 0] }]
  settings := settings
  step := .auto

theorem isConfiguration_iff_emptyGradient :
    let foreign : Settings Float := Table.insert ∅ "linear_solver" (.text "mumps")
    let ran (settings : Settings Float) :=
      (emptyGradient settings).minimize (backendWith LimitedMemory.minimizer Config.standard)
        { user := () }
    let replies (settings : Settings Float) :=
      (emptyGradient settings).replies LimitedMemory.minimizer Config.standard ()
    (ran foreign).1
        = .error (.rejectedSetting "linear_solver" (.text "mumps") (.unknown "linear_solver")) ∧
      (¬∃ found, Shown 1 (replies foreign) found) ∧
      (∀ e ∈ replies foreign, ∃ i, e.callee = .constraint i) ∧
      (ran ∅).1 = .error (.gradientLength 1 0) ∧ ∃ found, Shown 1 (replies ∅) found := by
  intro foreign ran replies
  have htakes : TakesNonnegative LimitedMemory.minimizer := fun _ _ _ ↦ ⟨_, rfl⟩
  have hplain : ∀ settings, (emptyGradient settings).Plain := by
    intro settings
    refine ⟨fun _ _ _ _ h ↦ (nomatch h), fun _ _ _ _ h ↦ (nomatch h), fun c hc ↦ ?_⟩
    rw [List.mem_singleton.mp hc]
    exact ⟨fun _ _ _ _ h ↦ (nomatch h), fun _ h ↦ (nomatch h)⟩
  have hrectangular : ∀ settings, ∀ c ∈ (emptyGradient settings).constraints, c.Rectangular := by
    intro settings c hc derivative h
    rw [List.mem_singleton.mp hc] at h
    cases h
  have hiff := fun settings fault (h : (ran settings).1 = .error fault) ↦
    isConfiguration_iff LimitedMemory.keepsLength_minimizer htakes Config.standard
      (hplain settings) (hrectangular settings) () h
  have hforeign : (ran foreign).1
      = .error (.rejectedSetting "linear_solver" (.text "mumps") (.unknown "linear_solver")) :=
    Fault.ofResult?_eq_some.mp (by decide +kernel)
  have hempty : (ran ∅).1 = .error (.gradientLength 1 0) :=
    Fault.ofResult?_eq_some.mp (by decide +kernel)
  obtain ⟨-, hclean, hcallees⟩ := hiff foreign _ hforeign
  obtain ⟨-, hshown, -⟩ := hiff ∅ _ hempty
  exact ⟨hforeign, hclean.mp rfl, hcallees rfl, hempty,
    not_not.mp fun h ↦ Bool.false_ne_true (hshown.mpr h)⟩

end Request

end NonlinearProgram
