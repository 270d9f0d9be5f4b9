import NonlinearProgram.Proofs.GuardedRun
import NonlinearProgram.Proofs.InRange
import NonlinearProgram.Proofs.Lockstep
import NonlinearProgram.Proofs.Prepared
import NonlinearProgram.Proofs.PureConstraints

/-!
# Groups of rows

A solver works with rows, and which of them belong to one constraint is known to the model alone:
bounds, values and derivative blocks are put below one another before they are handed on. So it does
not matter how rows are grouped. A pure constraint can be replaced by several ones that have
consecutive parts of its rows, and nothing changes in what is answered about the rows, and in the
result of a run with all that it counts (`Request.minimize_split`).

What the two runs have in common is that their constraints have the same rows
(`PureConstraint.SameRows`). What differs is in their sessions only, where the numbers of values are
fixed constraint by constraint (`Session.Regrouped`).

## Derivatives behind a count of coordinates

The derivatives of the two models are alike at points that have a coordinate for each variable, and
need not be at others. A run asks for derivatives at no others, so it does not notice a check of the
number of coordinates in front of the derivative (`MultiplierMethod.run_confine`).

That no other points are asked for is read off the guarded run. It never calls the derivative of the
problem itself, but the guarded one beside it, and with the same guarded derivative the two problems
have the same guarded run.
-/

namespace NonlinearProgram

variable {α σ τ β : Type}

/-! ## Problems that check the number of coordinates -/

/-- The problem with a check of the number of coordinates in front of its derivative. -/
def Problem.confine (n : ℕ) (p : Problem α σ) : Problem α σ where
  objective := p.objective
  gradient := p.gradient
  constraints := p.constraints
  jacobian := fun x ↦ do
    Eval.ofExcept (Check.count n x.length)
    p.jacobian x
  intermediate := p.intermediate
  note := p.note

theorem Problem.jacobian_confine {n : ℕ} (p : Problem α σ) {x : Point α} (hx : x.length = n) :
    (p.confine n).jacobian x = p.jacobian x := by
  have hcount : (Check.count n x.length : Except (Fault α) Unit) = .ok () := if_pos hx.symm
  show (Eval.ofExcept (Check.count n x.length) : Eval α σ Unit) >>= (fun _ ↦ p.jacobian x) = _
  rw [hcount]
  rfl

theorem Problem.lockstep_jacobian_confine {R : σ → τ → Prop} {n : ℕ} {p : Problem α σ}
    {p' : Problem α τ}
    (h : ∀ x, x.length = n → Eval.Lockstep R Eq (p.jacobian x) (p'.jacobian x)) (x : Point α) :
    Eval.Lockstep R Eq ((p.confine n).jacobian x) ((p'.confine n).jacobian x) := by
  by_cases hx : x.length = n
  · rw [p.jacobian_confine hx, p'.jacobian_confine hx]
    exact h x hx
  · have hcount : (Check.count n x.length : Except (Fault α) Unit)
        = .error (.boundCount n x.length) := if_neg (Ne.symm hx)
    show Eval.Lockstep R Eq (Eval.ofExcept (Check.count n x.length) >>= fun _ ↦ p.jacobian x)
      (Eval.ofExcept (Check.count n x.length) >>= fun _ ↦ p'.jacobian x)
    rw [hcount]
    exact Eval.lockstep_throw _

/-- The guarded problem with the same check in front of its derivative, and the guarded derivative
as it is. -/
def GuardedProblem.confine (n : ℕ) (p : GuardedProblem α σ) : GuardedProblem α σ :=
  ⟨p.toProblem.confine n, p.jacobian?⟩

theorem GuardedProblem.Shaped.confine {p : GuardedProblem α σ} {I : σ → Prop} {n m : ℕ}
    (hp : p.Shaped I n m) : (p.confine n).Shaped I n m where
  objective := hp.objective
  gradient := hp.gradient
  constraints := hp.constraints
  jacobian x hx := by
    show Strict.Safe I (p.jacobian? x) ((p.toProblem.confine n).jacobian x) _
    rw [p.toProblem.jacobian_confine hx]
    exact hp.jacobian x hx
  intermediate := hp.intermediate
  note := hp.note

namespace MultiplierMethod

variable [Scalar α] {minimizer : Minimizer α} {c : Config α} {l : Layout α} {n m : ℕ}

theorem history?_confine (p : GuardedProblem α σ) (fuel index : ℕ) (start : Iterate α) :
    history? minimizer (p.confine n) c l fuel index start
      = history? minimizer p c l fuel index start := by
  induction fuel generalizing index start with
  | zero => rfl
  | succ fuel ih =>
    have hiterate : iterate? minimizer (p.confine n) c l index start
        = iterate? minimizer p c l index start := rfl
    simp only [history?, hiterate, ih]

theorem run?_confine (p : GuardedProblem α σ) (x : Point α) :
    run? minimizer (p.confine n) c l x = run? minimizer p c l x := by
  have hstart : start? (p.confine n) c l x = start? p c l x := rfl
  have hfinish : ∀ s t, finish? (p.confine n) c l s t = finish? p c l s t := fun _ _ ↦ rfl
  simp only [run?, hstart, hfinish, history?_confine]

section Runs

variable {p : GuardedProblem α σ} {I : σ → Prop} (hp : p.Shaped I n m) (hl : l.Fits n m)
  (hminimizer : minimizer.KeepsLength) {x : Point α} (hx : x.length = n)

include hp hl hminimizer hx

theorem run_confine {s : σ} (hs : I s) :
    run minimizer (p.toProblem.confine n) c l x s = run minimizer p.toProblem c l x s := by
  have hguarded := (safe_run hp hl hminimizer (c := c) hx).agrees s hs
  have hconfined := (safe_run hp.confine hl hminimizer (c := c) hx).agrees s hs
  rw [run?_confine] at hconfined
  exact Option.some.inj (hconfined.symm.trans hguarded)

/-- Problems that are in lockstep, as far as their derivatives go at points with a coordinate for
each variable, have runs in lockstep. -/
theorem lockstep_run_of_confine {p' : GuardedProblem α τ} {J : τ → Prop} (hp' : p'.Shaped J n m)
    {R : σ → τ → Prop} (h : (p.toProblem.confine n).Lockstep R (p'.toProblem.confine n)) :
    Eval.Lockstep (fun s t ↦ R s t ∧ I s ∧ J t) Eq (run minimizer p.toProblem c l x)
      (run minimizer p'.toProblem c l x) := by
  rintro s t ⟨hR, hs, ht⟩
  obtain ⟨hstates, hanswers⟩ := lockstep_run h minimizer c l x s t hR
  rw [run_confine hp hl hminimizer hx hs, run_confine hp' hl hminimizer hx ht] at hstates hanswers
  have hkept := ((safe_run hp hl hminimizer (c := c) hx).keeps s hs).1
  have hkept' := ((safe_run hp' hl hminimizer (c := c) hx).keeps t ht).1
  exact ⟨⟨hstates, hkept, hkept'⟩, hanswers⟩

end Runs

end MultiplierMethod

/-! ## Sessions

Two sessions that know different arities and agree in all else. The remarks may differ too, since
nothing in a run depends on them. -/

/-- A session beside one with other numbers of values, and other remarks. -/
def Session.Regrouped (a a' : List ℕ) (s t : Session α σ) : Prop :=
  s.arities = some a ∧ ∃ remarks, t = { s with arities := some a', remarks := remarks }

/-- Such sessions after their probes. -/
def Session.RegroupedAfter (n : ℕ) (a a' : List ℕ) (s t : Session α σ) : Prop :=
  Regrouped a a' s t ∧ Probed n a s ∧ Probed n a' t

section Sessions

variable {a a' : List ℕ}

theorem Session.Regrouped.admits {s t : Session α σ} (h : Regrouped a a' s t) :
    s.Admits a ∧ t.Admits a' := by
  obtain ⟨hs, remarks, rfl⟩ := h
  exact ⟨Or.inr hs, Or.inr rfl⟩

theorem Session.regrouped_callUser (act : Eval α σ β) :
    Eval.Lockstep (Regrouped a a') Eq (callUser act) (callUser act) := by
  rintro s _ ⟨hs, remarks, rfl⟩
  exact ⟨⟨hs, remarks, rfl⟩, Agree.refl _⟩

theorem Session.regrouped_countEvaluation :
    Eval.Lockstep (Regrouped a a') Eq (countEvaluation : Eval α (Session α σ) Unit)
      countEvaluation := by
  refine Eval.lockstep_modify ?_
  rintro s _ ⟨hs, remarks, rfl⟩
  exact ⟨hs, remarks, rfl⟩

theorem Session.regrouped_countGradient :
    Eval.Lockstep (Regrouped a a') Eq (countGradient : Eval α (Session α σ) Unit)
      countGradient := by
  refine Eval.lockstep_modify ?_
  rintro s _ ⟨hs, remarks, rfl⟩
  exact ⟨hs, remarks, rfl⟩

namespace Model

theorem regrouped_evaluateFresh (m : Model α σ) (both : Callback α σ (α × Point α)) (x : Point α) :
    Eval.Lockstep (Session.Regrouped a a') Eq (m.evaluateFresh both x)
      (m.evaluateFresh both x) := by
  have hremark : Eval.Lockstep (Session.Regrouped a a') Eq
      (Session.remark .cacheMiss : Eval α (Session α σ) Unit) (Session.remark .cacheMiss) := by
    refine Eval.lockstep_lift ?_
    rintro s _ ⟨hs, remarks, rfl⟩
    exact ⟨⟨hs, _, rfl⟩, rfl⟩
  refine hremark.bindEq fun _ ↦ Session.regrouped_countEvaluation.bindEq fun _ ↦ ?_
  refine (Session.regrouped_callUser _).bindEq fun answer ↦ ?_
  refine (Eval.lockstep_ofExcept (Agree.refl _)).bindEq fun _ ↦ ?_
  refine (Eval.lockstep_modify ?_).bindEq fun _ ↦ Eval.lockstep_pure rfl
  rintro s _ ⟨hs, remarks, rfl⟩
  exact ⟨hs, remarks, rfl⟩

variable [Scalar α] (m : Model α σ)

/-- What is kept is the same on both sides. -/
theorem regrouped_evaluateBoth (both : Callback α σ (α × Point α)) (x : Point α) :
    Eval.Lockstep (Session.Regrouped a a') Eq (m.evaluateBoth both x) (m.evaluateBoth both x) := by
  intro s t hR
  have hfresh := m.regrouped_evaluateFresh both x s t hR
  have hkept : t.kept = s.kept := by
    obtain ⟨-, remarks, rfl⟩ := hR
    rfl
  rw [evaluateBoth_apply, evaluateBoth_apply, hkept]
  rcases s.kept with _ | e
  · exact hfresh
  · simp only
    split
    · obtain ⟨hs, remarks, rfl⟩ := hR
      exact ⟨⟨hs, _, rfl⟩, .answer rfl⟩
    · exact hfresh

theorem regrouped_objective (x : Point α) :
    Eval.Lockstep (Session.Regrouped a a') Eq (m.objective x) (m.objective x) := by
  rw [objective]
  cases m.evaluator with
  | combined both => exact (m.regrouped_evaluateBoth both x).bindEq fun _ ↦ Eval.lockstep_pure rfl
  | differences value =>
    exact Session.regrouped_countEvaluation.bindEq fun _ ↦ Session.regrouped_callUser _
  | separate value gradient =>
    exact Session.regrouped_countEvaluation.bindEq fun _ ↦ Session.regrouped_callUser _

theorem regrouped_gradient (x : Point α) :
    Eval.Lockstep (Session.Regrouped a a') Eq (m.gradient x) (m.gradient x) := by
  rw [gradient]
  cases m.evaluator with
  | combined both => exact (m.regrouped_evaluateBoth both x).bindEq fun _ ↦ Eval.lockstep_pure rfl
  | differences value =>
    exact Session.regrouped_countGradient.bindEq fun _ ↦ Session.regrouped_callUser _
  | separate value gradient =>
    refine Session.regrouped_countGradient.bindEq fun _ ↦ ?_
    refine (Session.regrouped_callUser _).bindEq fun g ↦ ?_
    exact (Eval.lockstep_ofExcept (Agree.refl _)).bindEq fun _ ↦ Eval.lockstep_pure rfl

end Model

end Sessions

/-! ## Rows

A row of a stack is known by its kind, its value and its gradient. Constraints have the same rows if
stacking them gives the same three lists, and this is inherited by what stands in front and behind.
-/

variable [Scalar α] {n : ℕ}

namespace PureConstraint

/-- Constraints that have the same rows, of the same kinds, and the same derivatives of them. -/
structure SameRows (cs cs' : List (PureConstraint α n)) : Prop where
  stack : ∀ x, stack cs x = stack cs' x
  blocks : ∀ step x, x.length = n → stackBlocks cs step x = stackBlocks cs' step x

theorem SameRows.append {cs cs' ds ds' : List (PureConstraint α n)} (h : SameRows cs cs')
    (h' : SameRows ds ds') : SameRows (cs ++ ds) (cs' ++ ds') where
  stack x := by
    have happend : ∀ l l' : List (PureConstraint α n),
        PureConstraint.stack (l ++ l') x = PureConstraint.stack l x ++ PureConstraint.stack l' x :=
      fun _ _ ↦ List.flatMap_append
    rw [happend, happend, h.stack, h'.stack]
  blocks step x hx := by
    have happend : ∀ l l' : List (PureConstraint α n),
        stackBlocks (l ++ l') step x = stackBlocks l step x ++ stackBlocks l' step x :=
      fun _ _ ↦ List.flatMap_append
    rw [happend, happend, h.blocks step x hx, h'.blocks step x hx]

theorem SameRows.sum_arity {cs cs' : List (PureConstraint α n)} (h : SameRows cs cs') :
    (cs.map arity).sum = (cs'.map arity).sum := by
  rw [← length_stack cs [], ← length_stack cs' [], h.stack]

theorem SameRows.rowBounds {cs cs' : List (PureConstraint α n)} (h : SameRows cs cs')
    (x : Point α) : (rowBounds cs x).lower = (rowBounds cs' x).lower ∧
      (rowBounds cs x).upper = (rowBounds cs' x).upper := by
  simp only [PureConstraint.rowBounds, h.stack, and_self]

theorem sameRows_split (before after : List (PureConstraint α n)) (f : PureConstraint α n)
    {sizes : List ℕ} (h : sizes.sum = f.arity) :
    SameRows (before ++ f :: after) (before ++ f.split h ++ after) := by
  have hrefl : ∀ cs : List (PureConstraint α n), SameRows cs cs := fun _ ↦
    ⟨fun _ ↦ rfl, fun _ _ _ ↦ rfl⟩
  have hsplit : SameRows [f] (f.split h) :=
    ⟨fun x ↦ (f.stack_split h x).symm, fun step x hx ↦ (f.stackBlocks_split h step hx).symm⟩
  rw [List.append_cons]
  exact ((hrefl before).append hsplit).append (hrefl after)

end PureConstraint

/-! ## Models

A probe counts values and makes bounds of kinds, so both models return the same bounds while their
sessions come to know different arities. From there on values and blocks are compared with these
arities, and pure constraints keep them. -/

namespace Model

open PureConstraint

/-- The model with other constraints. -/
def withConstraints (m : Model α σ) (cs : List (PureConstraint α n)) : Model α σ :=
  { m with constraints := cs.map toConstraint }

variable {m : Model α σ} {cs cs' : List (PureConstraint α n)}

section SameRows

variable (h : SameRows cs cs')

include h

theorem stackedValues_regrouped {s t : Session α σ} (hs : s.Admits (cs.map arity))
    (ht : t.Admits (cs'.map arity)) (x : Point α) :
    ∃ rows, (m.withConstraints cs).stackedValues x s = (.ok rows, s) ∧
      (m.withConstraints cs').stackedValues x t = (.ok rows, t) := by
  refine ⟨_, stackedValues_pure rfl hs x, ?_⟩
  rw [h.stack x]
  exact stackedValues_pure rfl ht x

theorem stackedBlocks_regrouped (hn : m.n = n) {s t : Session α σ} (hs : s.Admits (cs.map arity))
    (ht : t.Admits (cs'.map arity)) {x : Point α} (hx : x.length = n) :
    ∃ J, (m.withConstraints cs).stackedBlocks x s = (.ok J, s) ∧
      (m.withConstraints cs').stackedBlocks x t = (.ok J, t) := by
  refine ⟨_, stackedBlocks_pure (m := m.withConstraints cs) hn rfl hs hx, ?_⟩
  show (m.withConstraints cs').stackedBlocks x t = (.ok ⟨n, stackBlocks cs m.step x⟩, t)
  rw [h.blocks m.step x hx]
  exact stackedBlocks_pure (m := m.withConstraints cs') hn rfl ht hx

/-- Models whose constraints have the same rows are in lockstep, as far as derivatives are asked for
at points with a coordinate for each variable. -/
theorem lockstep_regrouped (hn : m.n = n) :
    ((m.withConstraints cs).problem.confine n).Lockstep
      (Session.Regrouped (cs.map arity) (cs'.map arity))
      ((m.withConstraints cs').problem.confine n) where
  objective := m.regrouped_objective
  gradient := m.regrouped_gradient
  constraints x := Eval.lockstep_of_const fun _ _ hR ↦
    stackedValues_regrouped h hR.admits.1 hR.admits.2 x
  jacobian := Problem.lockstep_jacobian_confine fun _ hx ↦ Eval.lockstep_of_const fun _ _ hR ↦
    stackedBlocks_regrouped h hn hR.admits.1 hR.admits.2 hx
  intermediate := by
    rintro report s _ ⟨hs, remarks, rfl⟩
    exact ⟨⟨hs, remarks, rfl⟩, rfl⟩
  note := by
    rintro remark s _ ⟨hs, remarks, rfl⟩
    exact ⟨hs, _, rfl⟩

end SameRows

theorem shaped_withConstraints (hn : m.n = n) (cs : List (PureConstraint α n)) :
    (⟨(m.withConstraints cs).problem,
        fun x ↦ Strict.ofEval ((m.withConstraints cs).stackedBlocks x)⟩ :
      GuardedProblem α (Session α σ)).Shaped (Session.Probed n (cs.map arity)) n
        (cs.map arity).sum := by
  subst hn
  refine shaped_of_jacobian (m := m.withConstraints cs) ?_ fun x hx ↦ Strict.safe_ofEval ?_
  · show (cs.map arity).length = (cs.map toConstraint).length
    rw [List.length_map, List.length_map]
  · intro s hs
    rw [stackedBlocks_pure (m := m.withConstraints cs) rfl rfl (Or.inr hs.1) hx]
    refine ⟨hs, fun J hJ ↦ ?_⟩
    cases hJ
    exact hasShape_stackBlocks cs m.step hx

end Model

/-! ## Requests

Apart from their constraints the two requests are one, and the checks do not look at the
constraints. So they differ from the probe on, and there the models are in lockstep. -/

namespace Request

open MultiplierMethod PureConstraint

/-- The request with other constraints. -/
def withConstraints (r : Request α σ) (cs : List (PureConstraint α n)) : Request α σ :=
  { r with constraints := cs.map toConstraint }

variable {r : Request α σ} {cs cs' : List (PureConstraint α r.start.size)}

theorem Checks.withConstraints {c : Checked α σ} (h : (r.withConstraints cs).Checks c)
    (ds : List (PureConstraint α r.start.size)) :
    (r.withConstraints ds).Checks { c with model := c.model.withConstraints ds } :=
  ⟨h.tolerance, h.second, h.evaluator, h.size_ne_zero, h.step, h.box, h.n_eq, h.parameters_eq, rfl,
    h.step_eq⟩

theorem Checks.model_eq {c : Checked α σ} (h : (r.withConstraints cs).Checks c) :
    c = { c with model := c.model.withConstraints cs } := by
  have hconstraints : c.model.constraints = cs.map toConstraint := h.constraints_eq
  rw [Model.withConstraints, ← hconstraints]

theorem lockstep_settle_regrouped {c : Checked α σ} (hc : (r.withConstraints cs).Checks c)
    (h : SameRows cs cs') {minimizer : Minimizer α} (hminimizer : minimizer.KeepsLength)
    (base : Config α) :
    Eval.Lockstep (Session.RegroupedAfter r.start.size (cs.map arity) (cs'.map arity)) Eq
      ((r.withConstraints cs).settle { c with model := c.model.withConstraints cs }
        (backendWith minimizer base) (rowBounds cs r.start.toPoint))
      ((r.withConstraints cs').settle { c with model := c.model.withConstraints cs' }
        (backendWith minimizer base) (rowBounds cs' r.start.toPoint)) := by
  have hn : c.model.n = r.start.size := hc.n_eq
  have hlower : (rowBounds cs r.start.toPoint).lower.length = (cs.map arity).sum :=
    (List.length_map _).trans (length_stack cs _)
  have hfits := hc.fits_layout hlower
  rw [Checked.layout, hn] at hfits
  have hshaped := Model.shaped_withConstraints hn cs
  have hshaped' := Model.shaped_withConstraints hn cs'
  rw [← h.sum_arity] at hshaped'
  have halongside : (r.withConstraints cs).Alongside
      { c with model := c.model.withConstraints cs } (r.withConstraints cs')
      { c with model := c.model.withConstraints cs' } := ⟨rfl, rfl, rfl, rfl, rfl, rfl⟩
  refine (lockstep_settle (K := Eq) halongside ?_ ?_ (h.rowBounds _) (fun config ↦ ?_)
    base).mono fun _ _ halike ↦ halike.eq
  · rintro s _ remarks remarks' ⟨⟨hs, _, rfl⟩, hprobed, hprobed'⟩
    exact ⟨⟨hs, remarks', rfl⟩, hprobed, hprobed'⟩
  · rintro s _ ⟨⟨hs, _, rfl⟩, -, -⟩
    rfl
  · exact lockstep_run_of_confine hshaped hfits hminimizer rfl hshaped'
      (Model.lockstep_regrouped h hn)

/-- Requests whose constraints have the same rows have the same outcome. -/
theorem minimize_regrouped (h : SameRows cs cs') {minimizer : Minimizer α}
    (hminimizer : minimizer.KeepsLength) (base : Config α) (u : σ) :
    ((r.withConstraints cs).minimize (backendWith minimizer base) { user := u }).1
      = ((r.withConstraints cs').minimize (backendWith minimizer base) { user := u }).1 := by
  have hrefused : Fault.ofResult? (r.withConstraints cs).check
      = Fault.ofResult? (r.withConstraints cs').check :=
    (ofResult?_check (r.withConstraints cs)).trans (ofResult?_check (r.withConstraints cs')).symm
  rw [minimize, minimize]
  rcases hcheck : (r.withConstraints cs).check with fault | c
  · have hcheck' : (r.withConstraints cs').check = .error fault := by
      rw [← Fault.ofResult?_eq_some, ← hrefused, hcheck]
      rfl
    rw [hcheck']
  have hc := check_eq_ok_iff.mp hcheck
  rw [check_eq_ok_iff.mpr (hc.withConstraints cs')]
  have hprobe := Model.probe_pure (m := c.model.withConstraints cs) (s := { user := u }) rfl
    r.start.toPoint
  have hprobe' := Model.probe_pure (m := c.model.withConstraints cs') (s := { user := u }) rfl
    r.start.toPoint
  have hprobed : ∀ a, Session.Probed r.start.size a
      ({ user := u, arities := some a } : Session α σ) := by
    intro a
    refine ⟨rfl, ?_⟩
    rintro e ⟨⟩
  have hsettle := (lockstep_settle_regrouped hc h hminimizer base _ _
    ⟨⟨rfl, #[], rfl⟩, hprobed _, hprobed _⟩).2.eq
  rw [hc.model_eq]
  simp only [runChecked_eq]
  refine (congrArg Prod.fst (Eval.bind_of_ok hprobe _)).trans (hsettle.trans ?_)
  exact (congrArg Prod.fst (Eval.bind_of_ok hprobe' _)).symm

/-- Requests that no answer about their rows tells apart, and no result. The numbers of values that
their sessions may know are `a` and `a'`. -/
structure Indistinguishable (b : Backend α (Session α σ)) (q q' : Request α σ) (a a' : List ℕ) :
    Prop where
  /-- A probe at any point finds the same bounds. -/
  bounds : ∀ x u, ∃ rows rows', (Constraint.probe q.constraints x u).1 = .ok rows ∧
    (Constraint.probe q'.constraints x u).1 = .ok rows' ∧
    rows.lower = rows'.lower ∧ rows.upper = rows'.upper
  /-- The values are the same at every point. -/
  values : ∀ c c', q.check = .ok c → q'.check = .ok c' →
    ∀ s t : Session α σ, s.Admits a → t.Admits a' → ∀ x, ∃ rows,
      (c.model.stackedValues x s).1 = .ok rows ∧ (c'.model.stackedValues x t).1 = .ok rows
  /-- So is the derivative, at every point with a coordinate for each variable. -/
  blocks : ∀ c c', q.check = .ok c → q'.check = .ok c' →
    ∀ s t : Session α σ, s.Admits a → t.Admits a' → ∀ x, x.length = q.start.size → ∃ J,
      (c.model.stackedBlocks x s).1 = .ok J ∧ (c'.model.stackedBlocks x t).1 = .ok J
  /-- A run comes to the same result or fault. -/
  result : ∀ u, (q.minimize b { user := u }).1 = (q'.minimize b { user := u }).1

theorem model_of_check {c c' : Checked α σ} (hcheck : (r.withConstraints cs).check = .ok c)
    (hcheck' : (r.withConstraints cs').check = .ok c') :
    c.model = c.model.withConstraints cs ∧ c'.model = c.model.withConstraints cs' := by
  have hc := check_eq_ok_iff.mp hcheck
  have hc' := check_eq_ok_iff.mpr (hc.withConstraints cs')
  rw [hcheck', Except.ok.injEq] at hc'
  exact ⟨congrArg Checked.model hc.model_eq, congrArg Checked.model hc'⟩

/-- **Grouping of rows does not matter.** A pure constraint can be replaced, in its place, by any
number of constraints that have consecutive parts of its rows, some of them empty. -/
theorem minimize_split {minimizer : Minimizer α} (hminimizer : minimizer.KeepsLength)
    (base : Config α) (r : Request α σ) (before after : List (PureConstraint α r.start.size))
    (f : PureConstraint α r.start.size) {sizes : List ℕ} (hsizes : sizes.sum = f.arity) :
    Indistinguishable (backendWith minimizer base)
      (r.withConstraints (before ++ f :: after))
      (r.withConstraints (before ++ f.split hsizes ++ after))
      ((before ++ f :: after).map arity) ((before ++ f.split hsizes ++ after).map arity) := by
  have hrows := sameRows_split before after f hsizes
  refine ⟨fun x u ↦ ?_, fun c c' hc hc' s t hs ht x ↦ ?_, fun c c' hc hc' s t hs ht x hx ↦ ?_,
    fun u ↦ minimize_regrouped hrows hminimizer base u⟩
  · exact ⟨_, _, congrArg Prod.fst (Constraint.probe_pure _ x u),
      congrArg Prod.fst (Constraint.probe_pure _ x u), hrows.rowBounds x⟩
  · obtain ⟨hm, hm'⟩ := model_of_check hc hc'
    obtain ⟨rows, hleft, hright⟩ := Model.stackedValues_regrouped (m := c.model) hrows hs ht x
    rw [hm', hm]
    exact ⟨rows, congrArg Prod.fst hleft, congrArg Prod.fst hright⟩
  · obtain ⟨hm, hm'⟩ := model_of_check hc hc'
    have hn : c.model.n = r.start.size := (check_eq_ok_iff.mp hc).n_eq
    obtain ⟨J, hleft, hright⟩ := Model.stackedBlocks_regrouped hrows hn hs ht hx
    rw [hm', hm]
    exact ⟨J, congrArg Prod.fst hleft, congrArg Prod.fst hright⟩

/-- A parabola over one variable. The run is cut off after an iteration. -/
def ruled : Request ℚ Unit where
  objective := .scalar fun x _ ↦ pure (Scalar.square (x.coord 0 - 4))
  start := .scalar 0
  settings := Table.insert ∅ "max_iter" (.int 1)
  step := .fixed 1

/-- A row with a derivative of its own. -/
def anchored : PureConstraint ℚ 1 where
  kind := .equality
  values := fun x _ ↦ [x.coord 0 - 1]
  derivative := some fun _ _ ↦ ⟨1, [[1]]⟩
  arity := 1
  length_values := fun _ ↦ rfl
  hasShape_derivative := by
    rintro _ ⟨⟩ x -
    exact ⟨rfl, rfl, by simp⟩

/-- Three rows without one. -/
def banded : PureConstraint ℚ 1 where
  kind := .inequality
  values := fun x _ ↦ [x.coord 0, x.coord 0 + 1, 3 - x.coord 0]
  arity := 3
  length_values := fun _ ↦ rfl
  hasShape_derivative := by rintro _ ⟨⟩

theorem minimize_split_banded :
    (LimitedMemory.minimizer : Minimizer ℚ).KeepsLength ∧
      ∃ (hsizes : [1, 0, 2].sum = banded.arity) (result : Result ℚ),
        result.summary.rows.length = 4 ∧
        ((ruled.withConstraints [anchored, banded]).minimize
          (backendWith LimitedMemory.minimizer Config.standard) { user := () }).1 = .ok result ∧
        ((ruled.withConstraints ([anchored] ++ banded.split hsizes ++ [])).minimize
          (backendWith LimitedMemory.minimizer Config.standard) { user := () }).1 = .ok result := by
  have hsizes : [1, 0, 2].sum = banded.arity := rfl
  have hok : ((ruled.withConstraints [anchored, banded]).minimize
      (backendWith LimitedMemory.minimizer Config.standard) { user := () }).1.toOption.map
        (fun result ↦ result.summary.rows.length) = some 4 := by
    decide +kernel
  have hsame := (minimize_split LimitedMemory.keepsLength_minimizer Config.standard ruled [anchored]
    [] banded hsizes).result ()
  refine ⟨LimitedMemory.keepsLength_minimizer, hsizes, ?_⟩
  rcases hrun : ((ruled.withConstraints [anchored, banded]).minimize
    (backendWith LimitedMemory.minimizer Config.standard) { user := () }).1 with fault | result
  · rw [hrun] at hok
    cases hok
  · rw [hrun] at hok
    exact ⟨result, Option.some.inj hok, rfl, hsame.symm.trans hrun⟩

end Request

end NonlinearProgram
