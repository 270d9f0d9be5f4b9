import NonlinearProgram.Proofs.Effects
import NonlinearProgram.Proofs.Stacking

/-!
# What callbacks reply

`Request.heard` is a request whose callbacks write down what they reply, in a record beside the
state: a fault, or the shape of the answer. The request, its model and its session carry the record
without looking at it, so a run on the request is the run that it would be without the record
(`Request.minimize_heard`).

`Shown` says which faults can be read off a record. A callback may have failed; else a gradient may
have had another length than the point, a constraint another number of values than at another call,
or a derivative another shape than the values and the point ask for.
-/

namespace NonlinearProgram

variable {α σ β : Type}

/-! ## Records of replies

A reply is recorded without its numbers: whether it was a fault, and else how long or how large it
was. This is all that the checks of a model look at. -/

/-- A reply of a callback, without its numbers. -/
inductive Reply (α : Type) where
  | fault (fault : Fault α)
  | number
  | vector (length : ℕ)
  | matrix (shape : ℕ × ℕ)

/-- A call of a callback, with its reply. -/
structure Heard (α : Type) where
  callee : Callee
  point : Point α
  reply : Reply α

/-- The faults that a record of replies shows, for a problem with `n` variables. -/
inductive Shown (n : ℕ) (record : List (Heard α)) : Fault α → Prop
  /-- A callback failed. -/
  | failed {callee : Callee} {x : Point α} {fault : Fault α}
      (reply : ⟨callee, x, .fault fault⟩ ∈ record) : Shown n record fault
  /-- A gradient had another length than there are variables. -/
  | gradient {callee : Callee} {x : Point α} {k : ℕ}
      (returned : callee = .objective ∨ callee = .gradient)
      (reply : ⟨callee, x, .vector k⟩ ∈ record) (length : k ≠ n) :
      Shown n record (.gradientLength n k)
  /-- A constraint had one number of values and then another. -/
  | values {i : ℕ} {x y : Point α} {k l : ℕ} (reply : ⟨.constraint i, x, .vector k⟩ ∈ record)
      (other : ⟨.constraint i, y, .vector l⟩ ∈ record) (length : l ≠ k) :
      Shown n record (.arityChanged i k l)
  /-- A derivative had another shape than a row for each value, with an entry for each variable. -/
  | derivative {i : ℕ} {x y : Point α} {k : ℕ} {shape : ℕ × ℕ}
      (values : ⟨.constraint i, x, .vector k⟩ ∈ record)
      (reply : ⟨.derivative i, y, .matrix shape⟩ ∈ record) (ne : shape ≠ (k, n)) :
      Shown n record (.jacobianShape i (k, n) shape)

/-- A longer record shows what a shorter one does. -/
theorem Shown.mono {n : ℕ} {record longer : List (Heard α)} {fault : Fault α}
    (h : Shown n record fault) (hlonger : ∀ e ∈ record, e ∈ longer) : Shown n longer fault := by
  cases h with
  | failed reply => exact .failed (hlonger _ reply)
  | gradient returned reply length => exact .gradient returned (hlonger _ reply) length
  | values reply other length => exact .values (hlonger _ reply) (hlonger _ other) length
  | derivative values reply ne => exact .derivative (hlonger _ values) (hlonger _ reply) ne

/-! ## Callbacks that are heard -/

/-- The reply that an outcome is. -/
def Reply.of (form : β → Reply α) : Except (Fault α) β → Reply α
  | .error failure => .fault failure
  | .ok b => form b

/-- A callback whose replies are written down. -/
def Callback.heard (callee : Callee) (form : β → Reply α) (f : Callback α σ β) :
    Callback α (Traced (Heard α) σ) β := fun x p t ↦
  let (answer, s) := f x p t.state
  (answer, ⟨t.trace ++ [⟨callee, x, Reply.of form answer⟩], s⟩)

def Objective.heard : Objective α σ → Objective α (Traced (Heard α) σ)
  | .scalar value => .scalar (Callback.heard .objective (fun _ ↦ .number) value)
  | .combined both =>
    .combined (Callback.heard .objective (fun answer ↦ .vector answer.2.length) both)

def Gradient.heard : Gradient α σ → Gradient α (Traced (Heard α) σ)
  | .missing => .missing
  | .combined => .combined
  | .explicit gradient => .explicit (Callback.heard .gradient (fun g ↦ .vector g.length) gradient)

def SecondOrder.heard (s : SecondOrder α σ) : SecondOrder α (Traced (Heard α) σ) where
  hessian := s.hessian.map (Callback.heard .hessian fun h ↦ .matrix h.shape)
  product := s.product.map fun f direction ↦
    Callback.heard .product (fun v ↦ .vector v.length) (f direction)

def Evaluator.heard : Evaluator α σ → Evaluator α (Traced (Heard α) σ)
  | .differences value => .differences (Callback.heard .objective (fun _ ↦ .number) value)
  | .separate value gradient => .separate (Callback.heard .objective (fun _ ↦ .number) value)
      (Callback.heard .gradient (fun g ↦ .vector g.length) gradient)
  | .combined both =>
    .combined (Callback.heard .objective (fun answer ↦ .vector answer.2.length) both)

def Constraint.heard (index : ℕ) (c : Constraint α σ) : Constraint α (Traced (Heard α) σ) where
  kind := c.kind
  value := Callback.heard (.constraint index) (fun v ↦ .vector v.length) c.value
  derivative :=
    c.derivative.map (Callback.heard (.derivative index) fun block ↦ .matrix block.shape)
  parameters := c.parameters

/-- Constraints that are heard by their places. -/
def Constraint.heardAll (cs : List (Constraint α σ)) : List (Constraint α (Traced (Heard α) σ)) :=
  cs.zipIdx.map fun p ↦ p.1.heard p.2

def Model.heard (m : Model α σ) : Model α (Traced (Heard α) σ) where
  evaluator := m.evaluator.heard
  parameters := m.parameters
  constraints := Constraint.heardAll m.constraints
  step := m.step
  n := m.n

/-- The request whose callbacks write down their replies. -/
def Request.heard (r : Request α σ) : Request α (Traced (Heard α) σ) where
  objective := r.objective.heard
  start := r.start
  parameters := r.parameters
  extra := r.extra
  gradient := r.gradient.heard
  second := r.second.heard
  constraints := Constraint.heardAll r.constraints
  bounds := r.bounds
  tolerance := r.tolerance
  settings := r.settings
  step := r.step

def Request.Checked.heard (c : Request.Checked α σ) : Request.Checked α (Traced (Heard α) σ) :=
  ⟨c.model.heard, c.tolerance, c.lower, c.upper⟩

/-! ## Checks do not hear anything

Checks see which callbacks a request has and what kinds its constraints are. Both are as they were.
-/

theorem Constraint.zipIdx_heardAll (cs : List (Constraint α σ)) :
    (heardAll cs).zipIdx = cs.zipIdx.map fun p ↦ (p.1.heard p.2, p.2) := by
  refine List.ext_getElem? fun i ↦ ?_
  rw [heardAll, List.getElem?_zipIdx, List.getElem?_map, List.getElem?_map, List.getElem?_zipIdx,
    Nat.zero_add]
  cases cs[i]? <;> rfl

theorem Constraint.map_kind_heardAll (cs : List (Constraint α σ)) :
    (heardAll cs).map kind = cs.map kind := by
  rw [heardAll, List.map_map]
  conv_rhs => rw [← List.zipIdx_map_fst 0 cs, List.map_map]
  rfl

theorem Evaluator.pair?_heard (f : Objective α σ) (g : Gradient α σ) :
    pair? f.heard g.heard = (pair? f g).map Evaluator.heard := by
  cases f <;> cases g <;> rfl

theorem SecondOrder.check_heard (s : SecondOrder α σ) :
    (s.heard.check : Except (Fault α) Unit) = s.check := by
  obtain ⟨hessian, product⟩ := s
  cases hessian <;> cases product <;> rfl

theorem SecondOrder.supplied_heard (s : SecondOrder α σ) : s.heard.supplied = s.supplied := by
  obtain ⟨hessian, product⟩ := s
  cases hessian <;> cases product <;> rfl

variable [Scalar α]

theorem Request.check_heard (r : Request α σ) :
    r.heard.check = r.check.map Checked.heard := by
  have hsecond : (r.heard.second.check : Except (Fault α) Unit) = r.second.check :=
    r.second.check_heard
  have hpair : Evaluator.pair? r.heard.objective r.heard.gradient
      = (Evaluator.pair? r.objective r.gradient).map Evaluator.heard :=
    Evaluator.pair?_heard r.objective r.gradient
  have hsame : r.heard.tolerance = r.tolerance ∧ r.heard.start = r.start ∧
      r.heard.step = r.step ∧ r.heard.bounds = r.bounds := ⟨rfl, rfl, rfl, rfl⟩
  obtain ⟨htolerance, hstart, hstep, hbounds⟩ := hsame
  simp only [check, Model.make, hsecond, hpair, htolerance, hstart, hstep, hbounds]
  rcases Check.tolerance r.tolerance with fault | tolerance
  · rfl
  rcases r.second.check with fault | _
  · rfl
  rcases Evaluator.pair? r.objective r.gradient with fault | evaluator
  · rfl
  by_cases hn : r.start.toPoint.length = 0
  · simp only [if_pos hn]
    rfl
  simp only [if_neg hn]
  rcases r.step.check with fault | _
  · rfl
  rcases Box.ofPairs r.bounds r.start.toPoint.length with fault | sides <;> rfl

/-! ## Runs do not hear anything

The record only grows at the call of a callback. So two sessions of which one has a record, and
which are alike otherwise, stay so through every operation of a model; the remarks are left out of
the comparison because nothing that is computed depends on them. -/

/-- A session with a record beside the state of its callbacks, and one without. They may have kept
other remarks. -/
structure Session.Unheard {ε : Type} (s : Session α (Traced ε σ)) (t : Session α σ) : Prop where
  user : s.user.state = t.user
  arities : s.arities = t.arities
  kept : s.kept = t.kept
  evaluations : s.evaluations = t.evaluations
  gradients : s.gradients = t.gradients
  iterations : s.iterations = t.iterations

omit [Scalar α] in
theorem Callback.lockstep_heard (callee : Callee) (form : β → Reply α) (f : Callback α σ β)
    (x : Point α) (p : Parameters α) :
    Eval.Lockstep (fun t s ↦ t.state = s) Eq (Callback.heard callee form f x p) (f x p) := by
  rintro t _ rfl
  exact ⟨rfl, Agree.refl _⟩

omit [Scalar α] in
theorem Session.unheard_callUser {act : Eval α (Traced (Heard α) σ) β} {act' : Eval α σ β}
    (h : Eval.Lockstep (fun t s ↦ t.state = s) Eq act act') :
    Eval.Lockstep Session.Unheard Eq (callUser act) (callUser act') := by
  intro s t hs
  obtain ⟨hstate, hanswer⟩ := h s.user t.user hs.user
  exact ⟨⟨hstate, hs.arities, hs.kept, hs.evaluations, hs.gradients, hs.iterations⟩, hanswer⟩

omit [Scalar α] in
theorem Session.unheard_countEvaluation {ε : Type} : Eval.Lockstep Session.Unheard Eq
    (countEvaluation : Eval α (Session α (Traced ε σ)) Unit) countEvaluation :=
  Eval.lockstep_modify fun _ _ h ↦ ⟨h.user, h.arities, h.kept, congrArg (· + 1) h.evaluations,
    h.gradients, h.iterations⟩

omit [Scalar α] in
theorem Session.unheard_countGradient {ε : Type} : Eval.Lockstep Session.Unheard Eq
    (countGradient : Eval α (Session α (Traced ε σ)) Unit) countGradient :=
  Eval.lockstep_modify fun _ _ h ↦ ⟨h.user, h.arities, h.kept, h.evaluations,
    congrArg (· + 1) h.gradients, h.iterations⟩

omit [Scalar α] in
theorem Session.Unheard.arity? {ε : Type} {s : Session α (Traced ε σ)} {t : Session α σ}
    (h : s.Unheard t) (index : ℕ) : s.arity? index = t.arity? index := by
  rw [Session.arity?, Session.arity?, h.arities]

namespace Model

omit [Scalar α] in
theorem unheard_constraintValues (index : ℕ) (c : Constraint α σ) (x : Point α) :
    Eval.Lockstep Session.Unheard Eq (constraintValues index (c.heard index) x)
      (constraintValues index c x) := by
  have hcall := Session.unheard_callUser (Callback.lockstep_heard (.constraint index)
    (fun v ↦ .vector v.length) c.value x c.parameters)
  refine hcall.bindEq fun values ↦ ?_
  refine Eval.lockstep_get.bind fun s t h ↦ ?_
  rw [h.arity? index]
  split
  · exact (Eval.lockstep_ofExcept (Agree.refl _)).bindEq fun _ ↦ Eval.lockstep_pure rfl
  · exact Eval.lockstep_pure rfl

omit [Scalar α] in
/-- What is stacked is made of the constraints in their places. -/
theorem unheard_mapM (m : Model α σ)
    {part : Constraint α (Traced (Heard α) σ) × ℕ → Eval α (Session α (Traced (Heard α) σ)) β}
    {part' : Constraint α σ × ℕ → Eval α (Session α σ) β}
    (h : ∀ p, Eval.Lockstep Session.Unheard Eq (part (p.1.heard p.2, p.2)) (part' p)) :
    Eval.Lockstep Session.Unheard Eq (m.heard.constraints.zipIdx.mapM part)
      (m.constraints.zipIdx.mapM part') := by
  rw [heard, Constraint.zipIdx_heardAll, List.mapM_map]
  exact Eval.lockstep_mapM fun p _ ↦ h p

omit [Scalar α] in
theorem unheard_stackedValues (m : Model α σ) (x : Point α) :
    Eval.Lockstep Session.Unheard Eq (m.heard.stackedValues x) (m.stackedValues x) :=
  (m.unheard_mapM fun p ↦ unheard_constraintValues p.2 p.1 x).bindEq fun _ ↦ Eval.lockstep_pure rfl

variable (m : Model α σ)

theorem unheard_constraintBlock (index : ℕ) (c : Constraint α σ) (x : Point α) :
    Eval.Lockstep Session.Unheard Eq (m.heard.constraintBlock index (c.heard index) x)
      (m.constraintBlock index c x) := by
  have hcheck : ∀ block, Eval.Lockstep Session.Unheard Eq (m.heard.checkBlock index block)
      (m.checkBlock index block) := by
    intro block
    refine Eval.lockstep_get.bind fun s t h ↦ ?_
    rw [h.arity? index]
    exact (Eval.lockstep_ofExcept (Agree.refl _)).bindEq fun _ ↦ Eval.lockstep_pure rfl
  rw [constraintBlock_eq_bind, constraintBlock_eq_bind]
  rcases hderivative : c.derivative with _ | derivative
  · rw [Constraint.heard, hderivative]
    exact (Forward.lockstep_jacobian (unheard_constraintValues index c) x m.step).bindEq hcheck
  · rw [Constraint.heard, hderivative]
    exact (Session.unheard_callUser (Callback.lockstep_heard _ _ _ _ _)).bindEq hcheck

theorem unheard_stackedBlocks (x : Point α) :
    Eval.Lockstep Session.Unheard Eq (m.heard.stackedBlocks x) (m.stackedBlocks x) :=
  (m.unheard_mapM fun p ↦ m.unheard_constraintBlock p.2 p.1 x).bindEq
    fun _ ↦ Eval.lockstep_pure rfl

theorem unheard_probe (x : Point α) :
    Eval.Lockstep Session.Unheard Eq (m.heard.probe x) (m.probe x) := by
  have hrow : Eval.Lockstep (fun t s ↦ t.state = s) Eq
      (m.heard.constraints.mapM fun c ↦ c.eval x) (m.constraints.mapM fun c ↦ c.eval x) := by
    have hplaces : m.constraints.mapM (fun c ↦ c.eval x)
        = m.constraints.zipIdx.mapM fun p ↦ p.1.eval x := by
      conv_lhs => rw [← List.zipIdx_map_fst 0 m.constraints, List.mapM_map]
      rfl
    rw [hplaces, heard, Constraint.heardAll, List.mapM_map]
    exact Eval.lockstep_mapM fun p _ ↦ Callback.lockstep_heard _ _ _ _ _
  have hprobe : Eval.Lockstep (fun t s ↦ t.state = s) Eq
      (Constraint.probe m.heard.constraints x) (Constraint.probe m.constraints x) := by
    rw [Constraint.probe_eq, Constraint.probe_eq, heard, Constraint.map_kind_heardAll]
    exact hrow.bindEq fun _ ↦ Eval.lockstep_pure rfl
  refine (Session.unheard_callUser hprobe).bindEq fun bounds ↦ ?_
  refine (Eval.lockstep_modify fun s t h ↦ ?_).bindEq fun _ ↦ Eval.lockstep_pure rfl
  exact ⟨h.user, congrArg (· <|> some bounds.arities) h.arities, h.kept, h.evaluations,
    h.gradients, h.iterations⟩

/-! ### Value and gradient -/

omit [Scalar α] in
theorem unheard_evaluateFresh (both : Callback α σ (α × Point α)) (x : Point α) :
    Eval.Lockstep Session.Unheard Eq (m.heard.evaluateFresh (Callback.heard .objective
      (fun answer ↦ .vector answer.2.length) both) x) (m.evaluateFresh both x) := by
  have hremark : Eval.Lockstep Session.Unheard Eq
      (Session.remark .cacheMiss : Eval α (Session α (Traced (Heard α) σ)) Unit)
      (Session.remark .cacheMiss) := Eval.lockstep_lift fun s t h ↦
    ⟨⟨h.user, h.arities, h.kept, h.evaluations, h.gradients, h.iterations⟩, rfl⟩
  refine hremark.bindEq fun _ ↦ Session.unheard_countEvaluation.bindEq fun _ ↦ ?_
  refine (Session.unheard_callUser (Callback.lockstep_heard _ _ _ _ _)).bindEq fun answer ↦ ?_
  refine (Eval.lockstep_ofExcept (Agree.refl _)).bindEq fun _ ↦ ?_
  refine (Eval.lockstep_modify fun s t h ↦ ?_).bindEq fun _ ↦ Eval.lockstep_pure rfl
  exact ⟨h.user, h.arities, rfl, h.evaluations, h.gradients, h.iterations⟩

theorem unheard_evaluateBoth (both : Callback α σ (α × Point α)) (x : Point α) :
    Eval.Lockstep Session.Unheard Eq (m.heard.evaluateBoth (Callback.heard .objective
      (fun answer ↦ .vector answer.2.length) both) x) (m.evaluateBoth both x) := by
  intro s t h
  have hfresh := m.unheard_evaluateFresh both x s t h
  rw [evaluateBoth_apply, evaluateBoth_apply, h.kept]
  rcases t.kept with _ | e
  · exact hfresh
  · simp only
    split
    · exact ⟨⟨h.user, h.arities, h.kept, h.evaluations, h.gradients, h.iterations⟩, .answer rfl⟩
    · exact hfresh

theorem unheard_objective (x : Point α) :
    Eval.Lockstep Session.Unheard Eq (m.heard.objective x) (m.objective x) := by
  have hcalled : ∀ value : Callback α σ α, Eval.Lockstep Session.Unheard Eq (do
      Session.countEvaluation
      Session.callUser (Callback.heard .objective (fun _ ↦ .number) value x m.parameters)) (do
      Session.countEvaluation
      Session.callUser (value x m.parameters)) := fun value ↦
    Session.unheard_countEvaluation.bindEq fun _ ↦
      Session.unheard_callUser (Callback.lockstep_heard _ _ _ _ _)
  rw [objective, objective, heard]
  cases m.evaluator with
  | differences value => exact hcalled value
  | separate value gradient => exact hcalled value
  | combined both => exact (m.unheard_evaluateBoth both x).bindEq fun _ ↦ Eval.lockstep_pure rfl

theorem unheard_gradient (x : Point α) :
    Eval.Lockstep Session.Unheard Eq (m.heard.gradient x) (m.gradient x) := by
  rw [gradient, gradient, heard]
  cases m.evaluator with
  | differences value =>
    refine Session.unheard_countGradient.bindEq fun _ ↦ Session.unheard_callUser ?_
    exact Forward.lockstep_gradient (fun _ ↦ Callback.lockstep_heard _ _ _ _ _) x m.step
  | separate value gradient =>
    refine Session.unheard_countGradient.bindEq fun _ ↦ ?_
    refine (Session.unheard_callUser (Callback.lockstep_heard _ _ _ _ _)).bindEq fun g ↦ ?_
    exact (Eval.lockstep_ofExcept (Agree.refl _)).bindEq fun _ ↦ Eval.lockstep_pure rfl
  | combined both => exact (m.unheard_evaluateBoth both x).bindEq fun _ ↦ Eval.lockstep_pure rfl

theorem unheard_problem : m.heard.problem.Lockstep Session.Unheard m.problem where
  objective := m.unheard_objective
  gradient := m.unheard_gradient
  constraints := m.unheard_stackedValues
  jacobian := m.unheard_stackedBlocks
  intermediate _ _ _ h := ⟨⟨h.user, h.arities, h.kept, h.evaluations, h.gradients, rfl⟩, rfl⟩
  note _ _ _ h := ⟨h.user, h.arities, h.kept, h.evaluations, h.gradients, h.iterations⟩

end Model

namespace Request

open MultiplierMethod

/-- A run on a request that is heard has the outcome that it would have without the record, and
leaves the callbacks in the same state. -/
theorem minimize_heard (r : Request α σ) (minimizer : Minimizer α) (base : Config α)
    (t : Traced (Heard α) σ) :
    (r.minimize (backendWith minimizer base) { user := t.state }).1
        = (r.heard.minimize (backendWith minimizer base) { user := t }).1 ∧
      (r.minimize (backendWith minimizer base) { user := t.state }).2.user
        = (r.heard.minimize (backendWith minimizer base) { user := t }).2.user.state := by
  rw [minimize, minimize, check_heard]
  rcases r.check with fault | c
  · exact ⟨rfl, rfl⟩
  have halongside : r.heard.Alongside c.heard r c :=
    ⟨rfl, rfl, r.second.supplied_heard, rfl, rfl, rfl⟩
  have hprobe := (c.model.unheard_probe r.start.toPoint).mono fun _ _ h ↦
    (⟨congrArg RowBounds.lower h, congrArg RowBounds.upper h⟩ : _ ∧ _)
  have hcounters : ∀ (s : Session α (Traced (Heard α) σ)) (t : Session α σ), s.Unheard t →
      s.counters = t.counters := fun _ _ h ↦ by
    rw [Session.counters, Session.counters, h.evaluations, h.gradients, h.iterations]
  have hrun := lockstep_runChecked halongside
    (fun _ _ _ _ h ↦ ⟨h.user, h.arities, h.kept, h.evaluations, h.gradients, h.iterations⟩)
    hcounters hprobe c.model.unheard_problem minimizer base
  obtain ⟨hsession, hanswer⟩ := hrun { user := t } { user := t.state }
    ⟨rfl, rfl, rfl, rfl, rfl, rfl⟩
  exact ⟨(hanswer.mono fun _ _ h ↦ h.eq).eq.symm, hsession.user.symm⟩

/-- What the callbacks reply while a request is run. -/
def replies (r : Request α σ) (minimizer : Minimizer α) (base : Config α) (u : σ) :
    List (Heard α) :=
  (r.heard.minimize (backendWith minimizer base) { user := ⟨[], u⟩ }).2.user.trace

end Request

end NonlinearProgram
