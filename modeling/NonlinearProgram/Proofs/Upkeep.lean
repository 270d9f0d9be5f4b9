import NonlinearProgram.Model.Session
import NonlinearProgram.Proofs.Differences

/-!
# What a session keeps

The requests of a run change a session in few ways: they put another state of the callbacks, count,
keep a remark, or keep a checked evaluation, and the first successful probe fixes the arities. A
property of sessions that survives each of these changes (`Session.Stable`) survives every request,
whether it answers or faults.

From this follows what a run relies on at later requests: arities that are fixed stay fixed
(`Session.stable_arities`), and so each constraint keeps the number of values that it was probed
with, whatever its callback returns.
-/

namespace NonlinearProgram

variable {α σ β : Type}

namespace Session

/-! ## Stable properties

A property is stable if it survives the changes that there are, one clause for each. Which of them a
request makes, and in which order, does not matter then, and neither does whether it answers. -/

/-- A property of sessions over `n` variables that no request can end. -/
structure Stable (n : ℕ) (I : Session α σ → Prop) : Prop where
  user : ∀ s u, I s → I { s with user := u }
  remarks : ∀ s r, I s → I { s with remarks := r }
  evaluations : ∀ s k, I s → I { s with evaluations := k }
  gradients : ∀ s k, I s → I { s with gradients := k }
  iterations : ∀ s k, I s → I { s with iterations := k }
  kept : ∀ s e, e.gradient.length = n → I s → I { s with kept := some e }
  arities : ∀ s a, I s → I { s with arities := s.arities <|> some a }

/-- A property of sessions over `n` variables that requests for values and derivatives keep. The
number of iterations and the arities do not change by these. -/
structure Steady (n : ℕ) (I : Session α σ → Prop) : Prop where
  user : ∀ s u, I s → I { s with user := u }
  remarks : ∀ s r, I s → I { s with remarks := r }
  evaluations : ∀ s k, I s → I { s with evaluations := k }
  gradients : ∀ s k, I s → I { s with gradients := k }
  kept : ∀ s e, e.gradient.length = n → I s → I { s with kept := some e }

theorem Stable.steady {n : ℕ} {I : Session α σ → Prop} (h : Stable n I) : Steady n I :=
  ⟨h.user, h.remarks, h.evaluations, h.gradients, h.kept⟩

theorem steady_iterations (n k : ℕ) :
    Steady n fun s : Session α σ ↦ s.iterations = k :=
  ⟨fun _ _ h ↦ h, fun _ _ h ↦ h, fun _ _ h ↦ h, fun _ _ h ↦ h, fun _ _ _ h ↦ h⟩

/-- Arities that are fixed stay fixed. -/
theorem stable_arities (n : ℕ) (a : List ℕ) :
    Stable n fun s : Session α σ ↦ s.arities = some a where
  user _ _ h := h
  remarks _ _ h := h
  evaluations _ _ h := h
  gradients _ _ h := h
  iterations _ _ h := h
  kept _ _ _ h := h
  arities s b h := by
    show (s.arities <|> some b) = some a
    rw [h]
    rfl

variable {n : ℕ} {I : Session α σ → Prop}

theorem callUser_apply (act : Eval α σ β) (s : Session α σ) :
    callUser act s = ((act s.user).1, { s with user := (act s.user).2 }) := rfl

theorem callUser_of_eq {act : Eval α σ β} {s : Session α σ} {answer : Except (Fault α) β} {u : σ}
    (h : act s.user = (answer, u)) : callUser act s = (answer, { s with user := u }) := by
  rw [callUser_apply, h]

theorem callUser_bind {γ : Type} (act : Eval α σ β) (f : β → Eval α σ γ) :
    callUser (act >>= f) = callUser act >>= fun b ↦ callUser (f b) := by
  funext s
  rw [callUser_apply, Eval.bind_apply, Eval.bind_apply, callUser_apply]
  rcases act s.user with ⟨fault | b, u⟩ <;> rfl

theorem callUser_mapM {ι : Type} (f : ι → Eval α σ β) (xs : List ι) :
    callUser (xs.mapM f) = xs.mapM fun x ↦ callUser (f x) := by
  induction xs with
  | nil => rfl
  | cons x xs ih =>
    rw [List.mapM_cons, List.mapM_cons, callUser_bind]
    simp only [callUser_bind, ih]
    rfl

/-- A call of a callback keeps what the state of the callbacks has no part in. -/
theorem keeps_callUser (hI : ∀ s u, I s → I { s with user := u }) {act : Eval α σ β}
    {P : β → Prop} (hact : Eval.Keeps (fun _ ↦ True) act P) : Eval.Keeps I (callUser act) P :=
  fun s hs ↦ ⟨hI s _ hs, (hact s.user trivial).2⟩

theorem keeps_call (hI : ∀ s u, I s → I { s with user := u }) (act : Eval α σ β) :
    Eval.Keeps I (callUser act) fun _ ↦ True :=
  keeps_callUser hI fun _ _ ↦ ⟨trivial, fun _ _ ↦ trivial⟩

theorem keeps_remark (hI : Steady n I) (r : Remark α) :
    Eval.Keeps I (remark r : Eval α (Session α σ) Unit) fun _ ↦ True :=
  Eval.keeps_lift fun s hs ↦ hI.remarks s _ hs

theorem keeps_countEvaluation (hI : Steady n I) :
    Eval.Keeps I (countEvaluation : Eval α (Session α σ) Unit) fun _ ↦ True :=
  Eval.keeps_modify fun s hs ↦ hI.evaluations s _ hs

theorem keeps_countGradient (hI : Steady n I) :
    Eval.Keeps I (countGradient : Eval α (Session α σ) Unit) fun _ ↦ True :=
  Eval.keeps_modify fun s hs ↦ hI.gradients s _ hs

end Session

/-! ## Differences -/

namespace Forward

variable [Scalar α] {I : σ → Prop}

theorem keeps_gradient {f : Point α → Eval α σ α} (hf : ∀ x, Eval.Keeps I (f x) fun _ ↦ True)
    (x : Point α) (step : Step α) :
    Eval.Keeps I (gradient f x step) fun g ↦ g.length = x.length := by
  rw [gradient_eq]
  refine (Eval.keeps_mapM fun p _ ↦ hf p).bind fun values hvalues ↦ Eval.keeps_pure ?_
  rw [length_slopes, hvalues.1, length_probes, Nat.add_sub_cancel]

theorem keeps_jacobian {c : Point α → Eval α σ (Point α)}
    (hc : ∀ x, Eval.Keeps I (c x) fun _ ↦ True) (x : Point α) (step : Step α) :
    Eval.Keeps I (jacobian c x step) fun _ ↦ True := by
  have halike : ∀ k p, Eval.Keeps I (alike c k p) fun _ ↦ True := fun k p ↦
    (hc p).bind fun _ _ ↦ (Eval.keeps_ofExcept fun _ _ ↦ trivial).bind fun _ _ ↦
      Eval.keeps_pure trivial
  rw [jacobian_eq_fixed, fixedJacobian_eq]
  exact (hc x).bind fun start _ ↦ (Eval.keeps_mapM fun p _ ↦ halike start.length p).bind
    fun _ _ ↦ Eval.keeps_pure trivial

end Forward

/-! ## Requests

Requests are sequences of calls, checks and changes of the session. Each of them keeps a stable
property because its parts do; a kept gradient is the one place where the check that came before is
needed. -/

namespace Model

variable {I : Session α σ → Prop} {m : Model α σ}

theorem keeps_constraintValues (hI : ∀ s u, I s → I { s with user := u }) (index : ℕ)
    (c : Constraint α σ) (x : Point α) :
    Eval.Keeps I (constraintValues index c x) fun _ ↦ True := by
  refine (Session.keeps_call hI _).bind
    fun values _ ↦ Eval.keeps_get.bind fun s _ ↦ ?_
  split
  · exact (Eval.keeps_ofExcept fun _ _ ↦ trivial).bind fun _ _ ↦ Eval.keeps_pure trivial
  · exact Eval.keeps_pure trivial

theorem keeps_stackedValues (hI : ∀ s u, I s → I { s with user := u }) (x : Point α) :
    Eval.Keeps I (m.stackedValues x) fun _ ↦ True :=
  (Eval.keeps_mapM fun p _ ↦ keeps_constraintValues hI p.2 p.1 x).bind
    fun _ _ ↦ Eval.keeps_pure trivial

variable [Scalar α]

/-- Value and gradient from a call, kept with their point. -/
def evaluateFresh (m : Model α σ) (both : Callback α σ (α × Point α)) (x : Point α) :
    Eval α (Session α σ) (α × Point α) := do
  Session.remark .cacheMiss
  Session.countEvaluation
  let (value, gradient) ← Session.callUser (both x m.parameters)
  Eval.ofExcept (Check.gradient gradient m.n)
  modify fun s ↦ { s with kept := some ⟨x, value, gradient⟩ }
  pure (value, gradient)

theorem evaluateBoth_apply (m : Model α σ) (both : Callback α σ (α × Point α)) (x : Point α)
    (s : Session α σ) :
    m.evaluateBoth both x s = match s.kept with
      | none => m.evaluateFresh both x s
      | some e =>
        if Point.same e.point x then
          (.ok (e.value, e.gradient), (Session.note .cacheHit s).2)
        else m.evaluateFresh both x s := by
  rw [evaluateBoth, Eval.bind_of_ok (Eval.get_apply s)]
  rcases s.kept with _ | e
  · rfl
  · simp only
    split <;> rfl

/-- A block, if its shape is right. -/
def checkBlock (m : Model α σ) (index : ℕ) (block : Matrix α) :
    Eval α (Session α σ) (Matrix α) := do
  let height := ((← get).arity? index).getD block.height
  Eval.ofExcept (Check.jacobian block index height m.n)
  pure block

theorem constraintBlock_eq_bind (m : Model α σ) (index : ℕ) (c : Constraint α σ) (x : Point α) :
    m.constraintBlock index c x = (match c.derivative with
      | some derivative => Session.callUser (derivative x c.parameters)
      | none => Forward.jacobian (constraintValues index c) x m.step) >>= m.checkBlock index := by
  rw [constraintBlock]
  cases c.derivative <;> rfl

theorem keeps_constraintBlock (hI : ∀ s u, I s → I { s with user := u }) (index : ℕ)
    (c : Constraint α σ) (x : Point α) :
    Eval.Keeps I (m.constraintBlock index c x) fun _ ↦ True := by
  have hcheck : ∀ block, Eval.Keeps I (m.checkBlock index block) fun _ ↦ True := fun block ↦
    Eval.keeps_get.bind fun s _ ↦ (Eval.keeps_ofExcept fun _ _ ↦ trivial).bind
      fun _ _ ↦ Eval.keeps_pure trivial
  rw [constraintBlock_eq_bind]
  cases c.derivative with
  | some derivative => exact (Session.keeps_call hI _).bind fun block _ ↦ hcheck block
  | none =>
    exact (Forward.keeps_jacobian (keeps_constraintValues hI index c) x m.step).bind
      fun block _ ↦ hcheck block

theorem keeps_stackedBlocks (hI : ∀ s u, I s → I { s with user := u }) (x : Point α) :
    Eval.Keeps I (m.stackedBlocks x) fun _ ↦ True :=
  (Eval.keeps_mapM fun p _ ↦ keeps_constraintBlock hI p.2 p.1 x).bind
    fun _ _ ↦ Eval.keeps_pure trivial

/-- A gradient that was kept or has been checked has the property that all of these have. -/
theorem keeps_evaluateBoth (hI : Session.Steady m.n I) {P : Point α → Prop}
    (hkept : ∀ s e, I s → s.kept = some e → P e.gradient) (hP : ∀ g, g.length = m.n → P g)
    (both : Callback α σ (α × Point α)) (x : Point α) :
    Eval.Keeps I (m.evaluateBoth both x) fun answer ↦ P answer.2 := by
  have hfresh : Eval.Keeps I (m.evaluateFresh both x) fun answer ↦ P answer.2 := by
    refine (Session.keeps_remark hI _).bind fun _ _ ↦ (Session.keeps_countEvaluation hI).bind
      fun _ _ ↦ (Session.keeps_call hI.user _).bind
      fun answer _ ↦ (Eval.keeps_check_gradient answer.2 m.n).bind fun _ hlength ↦ ?_
    exact (Eval.keeps_modify fun s ↦ hI.kept s ⟨x, answer.1, answer.2⟩ hlength).bind
      fun _ _ ↦ Eval.keeps_pure (hP answer.2 hlength)
  intro s hs
  rw [evaluateBoth_apply]
  rcases he : s.kept with _ | e
  · exact hfresh s hs
  · simp only
    split
    · refine ⟨hI.remarks s _ hs, fun answer hanswer ↦ ?_⟩
      cases hanswer
      exact hkept s e hs he
    · exact hfresh s hs

variable (hI : Session.Steady m.n I)

include hI

theorem keeps_objective (x : Point α) : Eval.Keeps I (m.objective x) fun _ ↦ True := by
  have hcount : ∀ value : Callback α σ α, Eval.Keeps I (do
      Session.countEvaluation
      Session.callUser (value x m.parameters)) fun _ ↦ True := fun value ↦
    (Session.keeps_countEvaluation hI).bind fun _ _ ↦
      Session.keeps_call hI.user _
  rw [objective]
  cases m.evaluator with
  | differences value => exact hcount value
  | separate value gradient => exact hcount value
  | combined both =>
    exact (keeps_evaluateBoth hI (fun _ _ _ _ ↦ trivial) (fun _ _ ↦ trivial) both x).bind
      fun _ _ ↦ Eval.keeps_pure trivial

/-- A gradient was kept, checked, or probed for. -/
theorem keeps_gradient {P : Point α → Prop}
    (hkept : ∀ s e, I s → s.kept = some e → P e.gradient) (hP : ∀ g, g.length = m.n → P g)
    {x : Point α} (hx : ∀ g, g.length = x.length → P g) : Eval.Keeps I (m.gradient x) P := by
  rw [gradient]
  cases m.evaluator with
  | differences value =>
    refine (Session.keeps_countGradient hI).bind fun _ _ ↦ Session.keeps_callUser hI.user ?_
    refine (Forward.keeps_gradient (fun p ↦ ?_) x m.step).mono hx
    exact fun _ _ ↦ ⟨trivial, fun _ _ ↦ trivial⟩
  | separate value gradient =>
    refine (Session.keeps_countGradient hI).bind fun _ _ ↦
      (Session.keeps_call hI.user _).bind fun g _ ↦
      (Eval.keeps_check_gradient g m.n).bind fun _ hlength ↦ Eval.keeps_pure (hP g hlength)
  | combined both =>
    exact (keeps_evaluateBoth hI hkept hP both x).bind fun _ hg ↦ Eval.keeps_pure hg

omit hI in
theorem keeps_probe (hI : Session.Stable m.n I) (x : Point α) :
    Eval.Keeps I (m.probe x) fun _ ↦ True :=
  (Session.keeps_call hI.user _).bind fun b _ ↦
    (Eval.keeps_modify fun s hs ↦ hI.arities s b.arities hs).bind
      fun _ _ ↦ Eval.keeps_pure trivial

end Model

/-! ## Sequences of requests -/

/-- A request to a model, made before or during a run. -/
inductive Ask (α : Type) where
  | objective (x : Point α)
  | gradient (x : Point α)
  | constraints (x : Point α)
  | jacobian (x : Point α)
  | probe (x : Point α)
  | intermediate (report : Report α)
  | note (remark : Remark α)

namespace Model

variable [Scalar α] {I : Session α σ → Prop} {m : Model α σ}

/-- The session after a request, whatever it came to. -/
def answer (m : Model α σ) (s : Session α σ) : Ask α → Session α σ
  | .objective x => (m.objective x s).2
  | .gradient x => (m.gradient x s).2
  | .constraints x => (m.stackedValues x s).2
  | .jacobian x => (m.stackedBlocks x s).2
  | .probe x => (m.probe x s).2
  | .intermediate report => (m.problem.intermediate report s).2
  | .note remark => (m.problem.note remark s).2

/-- The session after requests in a row. -/
def serve (m : Model α σ) (asks : List (Ask α)) (s : Session α σ) : Session α σ :=
  asks.foldl m.answer s

theorem stable_answer (hI : Session.Stable m.n I) {s : Session α σ} (hs : I s) (ask : Ask α) :
    I (m.answer s ask) := by
  cases ask with
  | objective x => exact (keeps_objective hI.steady x s hs).1
  | gradient x =>
    exact (keeps_gradient hI.steady (fun _ _ _ _ ↦ trivial) (fun _ _ ↦ trivial)
      (fun _ _ ↦ trivial : ∀ g : Point α, g.length = x.length → True) s hs).1
  | constraints x => exact (keeps_stackedValues hI.user x s hs).1
  | jacobian x => exact (keeps_stackedBlocks hI.user x s hs).1
  | probe x => exact (keeps_probe hI x s hs).1
  | intermediate report => exact hI.iterations s _ hs
  | note remark => exact hI.remarks s _ hs

theorem stable_serve (hI : Session.Stable m.n I) (asks : List (Ask α)) {s : Session α σ}
    (hs : I s) : I (m.serve asks s) := by
  induction asks generalizing s with
  | nil => exact hs
  | cons ask asks ih => exact ih (stable_answer hI hs ask)

end Model

end NonlinearProgram
