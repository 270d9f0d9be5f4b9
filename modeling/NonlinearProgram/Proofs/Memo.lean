import NonlinearProgram.Proofs.FloatOrder
import NonlinearProgram.Proofs.Lockstep
import NonlinearProgram.Proofs.Upkeep

/-!
# Value and gradient, together or apart

A request can give value and gradient as two callbacks, or as one that returns both. In the second
case an evaluation is kept with its point and used again at points that compare equal to it. Where
the two are functions, and have the same results at points that compare equal, no run can tell: at
every request of a run the combined callback answers as the separate ones do, whether from a call or
from what was kept (`Model.evaluateBoth_twin`), and so the two runs are in lockstep
(`Request.minimize_together`). What differs is only what is counted.

The kept evaluation is that of the point at which it was made, and need not be that of the point
asked for: points can compare equal and be different, as zeros of both signs do. This is where the
condition on the functions is used.
-/

namespace NonlinearProgram

variable {α σ β : Type}

/-! ## Sessions

The two sessions agree in the arities and in the states of the callbacks. They need not agree in
what is kept, because separate callbacks keep nothing. -/

/-- A session of separate callbacks beside one of a combined callback. They agree in what answers
depend on; the second one counted no gradient, and what it keeps is right at the point where it was
made. -/
structure Session.Twin (f : Point α → α) (g : Point α → Point α) (s t : Session α σ) : Prop where
  user : s.user = t.user
  arities : s.arities = t.arities
  iterations : s.iterations = t.iterations
  gradients : t.gradients = 0
  kept : ∀ e, t.kept = some e → e.value = f e.point ∧ e.gradient = g e.point

variable {f : Point α → α} {g : Point α → Point α}

theorem Session.lockstep_callUser (act : Eval α σ β) :
    Eval.Lockstep (Twin f g) Eq (callUser act) (callUser act) := by
  intro s t h
  rw [callUser_apply, callUser_apply, h.user]
  exact ⟨⟨rfl, h.arities, h.iterations, h.gradients, h.kept⟩, Agree.refl _⟩

theorem Session.Twin.arity? {s t : Session α σ} (h : Twin f g s t) (index : ℕ) :
    s.arity? index = t.arity? index := by
  rw [Session.arity?, Session.arity?, h.arities]

/-! ## Constraints

Constraints read the arities and call their callbacks, and both are alike in the two sessions. No
property of the constraints is needed. -/

namespace Model

theorem lockstep_constraintValues (index : ℕ) (c : Constraint α σ) (x : Point α) :
    Eval.Lockstep (Session.Twin f g) Eq (constraintValues index c x)
      (constraintValues index c x) := by
  refine (Session.lockstep_callUser _).bindEq fun values ↦ ?_
  refine Eval.lockstep_get.bind fun s t h ↦ ?_
  rw [h.arity? index]
  split
  · exact (Eval.lockstep_ofExcept (Agree.refl _)).bindEq fun _ ↦ Eval.lockstep_pure rfl
  · exact Eval.lockstep_pure rfl

/-- The model with another evaluator. -/
def withEvaluator (m : Model α σ) (e : Evaluator α σ) : Model α σ := { m with evaluator := e }

variable (m : Model α σ) (e e' : Evaluator α σ)

theorem lockstep_stackedValues (x : Point α) :
    Eval.Lockstep (Session.Twin f g) Eq ((m.withEvaluator e).stackedValues x)
      ((m.withEvaluator e').stackedValues x) :=
  (Eval.lockstep_mapM fun p _ ↦ lockstep_constraintValues p.2 p.1 x).bindEq
    fun _ ↦ Eval.lockstep_pure rfl

variable [Scalar α]

theorem lockstep_constraintBlock (index : ℕ) (c : Constraint α σ) (x : Point α) :
    Eval.Lockstep (Session.Twin f g) Eq ((m.withEvaluator e).constraintBlock index c x)
      ((m.withEvaluator e').constraintBlock index c x) := by
  have hcheck : ∀ block, Eval.Lockstep (Session.Twin f g) Eq
      ((m.withEvaluator e).checkBlock index block)
      ((m.withEvaluator e').checkBlock index block) := by
    intro block
    refine Eval.lockstep_get.bind fun s t h ↦ ?_
    rw [h.arity? index]
    exact (Eval.lockstep_ofExcept (Agree.refl _)).bindEq fun _ ↦ Eval.lockstep_pure rfl
  rw [constraintBlock_eq_bind, constraintBlock_eq_bind]
  cases c.derivative with
  | some derivative => exact (Session.lockstep_callUser _).bindEq hcheck
  | none =>
    exact (Forward.lockstep_jacobian (lockstep_constraintValues index c) x m.step).bindEq hcheck

theorem lockstep_stackedBlocks (x : Point α) :
    Eval.Lockstep (Session.Twin f g) Eq ((m.withEvaluator e).stackedBlocks x)
      ((m.withEvaluator e').stackedBlocks x) :=
  (Eval.lockstep_mapM fun p _ ↦ lockstep_constraintBlock m e e' p.2 p.1 x).bindEq
    fun _ ↦ Eval.lockstep_pure rfl

theorem lockstep_probe (x : Point α) :
    Eval.Lockstep (Session.Twin f g) Eq ((m.withEvaluator e).probe x)
      ((m.withEvaluator e').probe x) := by
  refine (Session.lockstep_callUser _).bindEq fun bounds ↦ ?_
  refine (Eval.lockstep_modify fun s t h ↦ ?_).bindEq fun _ ↦ Eval.lockstep_pure rfl
  exact ⟨h.user, congrArg (· <|> some bounds.arities) h.arities, h.iterations, h.gradients, h.kept⟩

end Model

/-! ## Value and gradient

Four cases, by what is asked for and by whether the kept point compares equal to the point. In two
of them the combined callback is not called at all, and these are those that need the functions to
be the same at points that compare equal. -/

/-- A value and a gradient with `n` entries that are the same at points that compare equal. -/
structure SameAtSame [Scalar α] (n : ℕ) (f : Point α → Parameters α → α)
    (g : Point α → Parameters α → Point α) : Prop where
  length : ∀ x p, (g x p).length = n
  value : ∀ x y p, Point.same x y → f x p = f y p
  gradient : ∀ x y p, Point.same x y → g x p = g y p

namespace Evaluator

/-- The evaluator that calls two functions for value and gradient. -/
def apart (f : Point α → Parameters α → α) (g : Point α → Parameters α → Point α) :
    Evaluator α σ :=
  .separate (fun x p ↦ pure (f x p)) fun x p ↦ pure (g x p)

/-- The evaluator that calls them together. -/
def together (f : Point α → Parameters α → α) (g : Point α → Parameters α → Point α) :
    Evaluator α σ :=
  .combined fun x p ↦ pure (f x p, g x p)

end Evaluator

namespace Model

section Pairs

variable [Scalar α] (m : Model α σ) {f : Point α → Parameters α → α}
  {g : Point α → Parameters α → Point α} (hfg : SameAtSame m.n f g)

include hfg

theorem check_gradient (x : Point α) :
    (Check.gradient (g x m.parameters) m.n : Except (Fault α) Unit) = .ok () :=
  if_pos (hfg.length x m.parameters)

theorem evaluateFresh_twin (x : Point α) {s t : Session α σ}
    (h : Session.Twin (f · m.parameters) (g · m.parameters) s t) :
    ∃ t', m.evaluateFresh (fun x p ↦ pure (f x p, g x p)) x t
        = (.ok (f x m.parameters, g x m.parameters), t') ∧
      Session.Twin (f · m.parameters) (g · m.parameters) s t' := by
  refine ⟨{ t with
    remarks := t.remarks.push .cacheMiss, evaluations := t.evaluations + 1,
    kept := some ⟨x, f x m.parameters, g x m.parameters⟩ }, ?_,
    h.user, h.arities, h.iterations, h.gradients, ?_⟩
  · refine (Eval.bind_of_ok rfl _).trans ?_
    refine (Eval.bind_of_ok rfl _).trans ?_
    refine (Eval.bind_of_ok rfl _).trans ?_
    simp only [check_gradient m hfg x]
    rfl
  · rintro e ⟨⟩
    exact ⟨rfl, rfl⟩

theorem evaluateBoth_twin (x : Point α) {s t : Session α σ}
    (h : Session.Twin (f · m.parameters) (g · m.parameters) s t) :
    ∃ t', m.evaluateBoth (fun x p ↦ pure (f x p, g x p)) x t
        = (.ok (f x m.parameters, g x m.parameters), t') ∧
      Session.Twin (f · m.parameters) (g · m.parameters) s t' := by
  rw [evaluateBoth_apply]
  rcases hkept : t.kept with _ | e
  · exact evaluateFresh_twin m hfg x h
  · obtain ⟨hvalue, hgradient⟩ := h.kept e hkept
    simp only
    split
    · rename_i hsame
      -- what was kept belongs to another point, which compares equal to this one
      rw [hvalue, hgradient, hfg.value e.point x _ hsame, hfg.gradient e.point x _ hsame]
      exact ⟨_, rfl, h.user, h.arities, h.iterations, h.gradients, h.kept⟩
    · exact evaluateFresh_twin m hfg x h

theorem lockstep_objective (x : Point α) :
    Eval.Lockstep (Session.Twin (f · m.parameters) (g · m.parameters)) Eq
      ((m.withEvaluator (.apart f g)).objective x)
      ((m.withEvaluator (.together f g)).objective x : Eval α (Session α σ) α) := by
  intro s t h
  obtain ⟨t', hboth, h'⟩ := evaluateBoth_twin (m.withEvaluator (.together f g)) hfg x h
  have htogether : (m.withEvaluator (.together f g)).objective x t = (.ok (f x m.parameters), t') :=
    Eval.bind_of_ok hboth _
  rw [htogether]
  exact ⟨⟨h'.user, h'.arities, h'.iterations, h'.gradients, h'.kept⟩, .answer rfl⟩

theorem lockstep_gradient (x : Point α) :
    Eval.Lockstep (Session.Twin (f · m.parameters) (g · m.parameters)) Eq
      ((m.withEvaluator (.apart f g)).gradient x)
      ((m.withEvaluator (.together f g)).gradient x : Eval α (Session α σ) (Point α)) := by
  intro s t h
  obtain ⟨t', hboth, h'⟩ := evaluateBoth_twin (m.withEvaluator (.together f g)) hfg x h
  have htogether : (m.withEvaluator (.together f g)).gradient x t = (.ok (g x m.parameters), t') :=
    Eval.bind_of_ok hboth _
  have hapart : (m.withEvaluator (.apart f g)).gradient x s
      = (.ok (g x m.parameters), { s with gradients := s.gradients + 1 }) := by
    refine (Eval.bind_of_ok rfl _).trans ?_
    refine (Eval.bind_of_ok rfl _).trans ?_
    have hchecked := check_gradient m hfg x
    simp only [withEvaluator, hchecked]
    rfl
  rw [htogether, hapart]
  exact ⟨⟨h'.user, h'.arities, h'.iterations, h'.gradients, h'.kept⟩, .answer rfl⟩

/-- Separate callbacks and a combined one are in lockstep. -/
theorem lockstep_problem :
    (m.withEvaluator (.apart f g)).problem.Lockstep
      (Session.Twin (f · m.parameters) (g · m.parameters))
      (m.withEvaluator (.together f g)).problem where
  objective := lockstep_objective m hfg
  gradient := lockstep_gradient m hfg
  constraints := lockstep_stackedValues m _ _
  jacobian := lockstep_stackedBlocks m _ _
  intermediate _ _ _ h := ⟨⟨h.user, h.arities, rfl, h.gradients, h.kept⟩, rfl⟩
  note _ _ _ h := ⟨h.user, h.arities, h.iterations, h.gradients, h.kept⟩

end Pairs

theorem agree_make [Scalar α] {objective objective' : Objective α σ}
    {gradient gradient' : Gradient α σ} {e e' : Evaluator α σ}
    (he : Evaluator.pair? objective gradient = .ok e)
    (he' : Evaluator.pair? objective' gradient' = .ok e') (second : SecondOrder α σ) (n : ℕ)
    (parameters : Parameters α) (constraints : List (Constraint α σ)) (step : Step α) :
    Agree (fun m m' ↦ ∃ shared : Model α σ, shared.n = n ∧ m = shared.withEvaluator e ∧
        m' = shared.withEvaluator e')
      (make objective gradient second n parameters constraints step)
      (make objective' gradient' second n parameters constraints step) := by
  rw [make, make, he, he']
  refine (Agree.refl _).bind fun _ _ _ ↦ ?_
  have hevaluators : Agree (fun a b ↦ e = a ∧ e' = b)
      (.ok e : Except (Fault α) (Evaluator α σ)) (.ok e') := .answer ⟨rfl, rfl⟩
  refine hevaluators.bind ?_
  rintro _ _ ⟨rfl, rfl⟩
  simp only
  split
  · exact .fault _
  · exact (Agree.refl _).bind fun _ _ _ ↦
      .answer ⟨⟨e, parameters, constraints, step, n⟩, rfl, rfl, rfl⟩

end Model

/-! ## Requests

The checks see which callbacks there are. A value with a gradient of its own passes them as a
combined one does, so both requests are refused for the same reasons. -/

namespace Request

open MultiplierMethod

/-- The request for a minimizer of a function with a gradient of its own. -/
def apart (r : Request α σ) (f : Point α → Parameters α → α)
    (g : Point α → Parameters α → Point α) : Request α σ :=
  { r with
    objective := .scalar fun x p ↦ pure (f x p)
    gradient := .explicit fun x p ↦ pure (g x p) }

/-- The request for a minimizer of a function that comes with its gradient. -/
def together (r : Request α σ) (f : Point α → Parameters α → α)
    (g : Point α → Parameters α → Point α) : Request α σ :=
  { r with
    objective := .combined fun x p ↦ pure (f x p, g x p)
    gradient := .combined }

variable [Scalar α] {f : Point α → Parameters α → α} {g : Point α → Parameters α → Point α}

/-- The two requests are refused alike, or come to models that differ in their evaluators only. -/
theorem agree_check (r : Request α σ) (f : Point α → Parameters α → α)
    (g : Point α → Parameters α → Point α) :
    Agree (fun c c' ↦ ∃ (m : Model α σ) (tolerance : Option α) (lower upper : Option (Point α)),
        m.n = r.start.size ∧
        c = ⟨m.withEvaluator (.apart f g), tolerance, lower, upper⟩ ∧
        c' = ⟨m.withEvaluator (.together f g), tolerance, lower, upper⟩)
      (r.apart f g).check (r.together f g).check := by
  rw [check, check]
  refine (Agree.refl (Check.tolerance r.tolerance)).bind ?_
  rintro tolerance _ rfl
  refine (Model.agree_make rfl rfl r.second r.start.size (r.parameters.mergeNamed r.extra)
    r.constraints r.step).bind ?_
  rintro _ _ ⟨m, hn, rfl, rfl⟩
  refine (Agree.refl (Box.ofPairs r.bounds r.start.size)).bind ?_
  rintro sides _ rfl
  exact .answer ⟨m, tolerance, sides.1, sides.2, hn, rfl, rfl⟩

/-- **A run cannot tell whether value and gradient come together.** Both requests fault alike, or
have the same result; only the evaluations are counted in another way. -/
theorem minimize_together (minimizer : Minimizer α) (base : Config α) (r : Request α σ)
    (hfg : SameAtSame r.start.size f g) (u : σ) :
    Agree (Result.Alike fun k k' ↦ k.iterations = k'.iterations ∧ k'.gradients = 0)
      ((r.apart f g).minimize (backendWith minimizer base) { user := u }).1
      ((r.together f g).minimize (backendWith minimizer base) { user := u }).1 := by
  -- no callback is called before the checks are done, so both requests pass them or neither does
  have hcheck := agree_check r f g
  rw [minimize, minimize]
  generalize (r.apart f g).check = outcome at hcheck
  generalize (r.together f g).check = outcome' at hcheck
  cases hcheck with
  | fault fault => exact .fault fault
  | answer related =>
    obtain ⟨m, tolerance, lower, upper, hn, rfl, rfl⟩ := related
    rw [← hn] at hfg
    have halongside : (r.apart f g).Alongside
        ⟨m.withEvaluator (.apart f g), tolerance, lower, upper⟩ (r.together f g)
        ⟨m.withEvaluator (.together f g), tolerance, lower, upper⟩ := ⟨rfl, rfl, rfl, rfl, rfl, rfl⟩
    have hprobe := (Model.lockstep_probe (f := (f · m.parameters)) (g := (g · m.parameters)) m
      (.apart f g) (.together f g) r.start.toPoint).mono fun _ _ h ↦
        (⟨congrArg RowBounds.lower h, congrArg RowBounds.upper h⟩ : _ ∧ _)
    have hrun := lockstep_runChecked halongside (K := fun k k' ↦
      k.iterations = k'.iterations ∧ k'.gradients = 0)
      (fun _ _ _ _ h ↦ ⟨h.user, h.arities, h.iterations, h.gradients, h.kept⟩)
      (fun s t h ↦ ⟨h.iterations, h.gradients⟩) hprobe (Model.lockstep_problem m hfg) minimizer base
    exact (hrun { user := u } { user := u } ⟨rfl, rfl, rfl, rfl, nofun⟩).2

/-- A parabola between bounds, with its least value at one. -/
def parabola : Request Float Unit where
  objective := .scalar fun x _ ↦ pure (Scalar.square (x.coord 0 - 1.0))
  start := .scalar 0.0
  bounds := some [(-1.0, 3.0)]
  step := .auto

theorem sub_one_of_same {x y : Point Float} (h : Point.same x y) :
    x.coord 0 - 1.0 = y.coord 0 - 1.0 := by
  have hcoord : (x.coord 0 == y.coord 0) = true := by
    cases x with
    | nil =>
      cases y with
      | nil => decide
      | cons b y => cases h
    | cons a x =>
      cases y with
      | nil => cases h
      | cons b y => exact (Bool.and_eq_true_iff.mp h).1
  exact FloatOrder.sub_eq_of_beq hcoord ⟨_, _, _, _, rfl⟩

theorem sameAtSame_parabola :
    SameAtSame 1 (fun (x : Point Float) _ ↦ Scalar.square (x.coord 0 - 1.0))
      fun x _ ↦ [2.0 * (x.coord 0 - 1.0)] where
  length _ _ := rfl
  value x y _ h := by rw [sub_one_of_same h]
  gradient x y _ h := by rw [sub_one_of_same h]

theorem minimize_together_parabola :
    let f : Point Float → Parameters Float → Float := fun x _ ↦ Scalar.square (x.coord 0 - 1.0)
    let g : Point Float → Parameters Float → Point Float := fun x _ ↦ [2.0 * (x.coord 0 - 1.0)]
    let b : Backend Float (Session Float Unit) :=
      backendWith LimitedMemory.minimizer Config.standard
    SameAtSame parabola.start.size f g ∧
      Agree (Result.Alike fun k k' ↦ k.iterations = k'.iterations ∧ k'.gradients = 0)
        ((parabola.apart f g).minimize b { user := () }).1
        ((parabola.together f g).minimize b { user := () }).1 ∧
      ((parabola.apart f g).minimize b { user := () }).1.toOption.map Result.counters
        = some ⟨7, 5, 2⟩ ∧
      ((parabola.together f g).minimize b { user := () }).1.toOption.map Result.counters
        = some ⟨3, 0, 2⟩ :=
  ⟨sameAtSame_parabola, minimize_together _ _ parabola sameAtSame_parabola (),
    by decide +kernel, by decide +kernel⟩

end Request

end NonlinearProgram
