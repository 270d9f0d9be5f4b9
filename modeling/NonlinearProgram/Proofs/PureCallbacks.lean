import NonlinearProgram.Proofs.InRange

/-!
# Pure callbacks

A callback is pure if its answers do not depend on the state. What a model with pure callbacks
answers can then be said without a state: the objective is the value that the callback gives at the
point, and the stacked constraints are the values of all constraints there.

Value and gradient that come together are also answered from what was kept. That is right as long
as every kept evaluation is one of the callback at its own point (`Model.Remembers`), and points
that compare equal are equal.
-/

namespace NonlinearProgram

variable {α σ β : Type}

/-! ## Purity

Purity is a property of the answers and not of what is left behind, so that a pure callback may
count its calls. An answer that is the same in every state is what `Eval.Gives` names. -/

/-- The answer does not depend on the state. -/
def Eval.Pure (act : Eval α σ β) : Prop := ∀ u u', (act u).1 = (act u').1

/-- A computation that answers this wherever it is run. -/
def Eval.Gives (act : Eval α σ β) (b : β) : Prop := ∀ u, (act u).1 = .ok b

/-- A callback whose answers do not depend on the state. -/
def Callback.Pure (f : Callback α σ β) : Prop := ∀ x p, Eval.Pure (f x p)

theorem Eval.Pure.gives {act : Eval α σ β} (h : act.Pure) {u : σ} {b : β}
    (hb : (act u).1 = .ok b) : act.Gives b := fun u' ↦ (h u' u).trans hb

theorem Eval.answered_of_gives {ι : Type} {f : ι → Eval α σ β} {value : ι → β} {xs : List ι}
    (hf : ∀ x ∈ xs, (f x).Gives (value x)) (s : σ) :
    ∃ s', Answered f xs s (xs.map value) s' := by
  induction xs generalizing s with
  | nil => exact ⟨s, .nil s⟩
  | cons x xs ih =>
    obtain ⟨hx, hrest⟩ := List.forall_mem_cons.mp hf
    obtain ⟨s', hs'⟩ := ih hrest (f x s).2
    exact ⟨s', .cons (Prod.ext (hx s) rfl) hs'⟩

theorem Session.keeps_call_pure {I : Session α σ → Prop} (hI : ∀ s u, I s → I { s with user := u })
    {act : Eval α σ β} (hact : act.Pure) : Eval.Keeps I (callUser act) act.Gives :=
  keeps_callUser hI fun _ _ ↦ ⟨trivial, fun _ hb ↦ hact.gives hb⟩

/-! ## Objectives -/

def Objective.Pure : Objective α σ → Prop
  | .scalar value => value.Pure
  | .combined both => both.Pure

/-- The value of an objective at a point, in every state. -/
def Objective.Gives (f : Objective α σ) (p : Parameters α) (x : Point α) (v : α) : Prop :=
  match f with
  | .scalar value => (value x p).Gives v
  | .combined both => ∃ g, (both x p).Gives (v, g)

/-- The objective that an evaluator was made from. -/
def Evaluator.source : Evaluator α σ → Objective α σ
  | .differences value => .scalar value
  | .separate value _ => .scalar value
  | .combined both => .combined both

theorem Evaluator.source_of_pair? {f : Objective α σ} {g : Gradient α σ} {e : Evaluator α σ}
    (h : Evaluator.pair? f g = .ok e) : e.source = f := by
  cases f <;> cases g <;> cases h <;> rfl

/-! ## Constraints -/

/-- The values of constraints at a point, in every state, one below the other. -/
def Constraint.Give (cs : List (Constraint α σ)) (x rows : Point α) : Prop :=
  ∃ parts, List.Forall₂ (fun c part ↦ (Constraint.eval c x).Gives part) cs parts ∧
    rows = parts.flatten

theorem Constraint.keeps_mapM_pure {cs : List (Constraint α σ)} (hcs : ∀ c ∈ cs, c.value.Pure)
    (x : Point α) : Eval.Keeps (fun _ ↦ True) (cs.mapM fun c ↦ c.eval x)
      (List.Forall₂ (fun c part ↦ (eval c x).Gives part) cs) :=
  (Strict.safe_mapM fun c hc ↦ Strict.safe_ofEval fun _ _ ↦
    ⟨trivial, fun _ hb ↦ (hcs c hc x c.parameters).gives hb⟩).keeps

namespace Model

variable {m : Model α σ} {I : Session α σ → Prop}

/-- A probe counts the rows that the constraints give. -/
theorem give_of_probe [Scalar α] (hm : ∀ c ∈ m.constraints, c.value.Pure) {x : Point α}
    {s s' : Session α σ} {b : RowBounds α} (h : m.probe x s = (.ok b, s')) :
    ∃ rows, Constraint.Give m.constraints x rows ∧ rows.length = b.arities.sum := by
  obtain ⟨bounds, s₁, hprobe, hpure⟩ := Eval.bind_eq_ok.mp h
  cases hpure
  rw [Session.callUser_apply, Prod.mk.injEq, Constraint.probe_eq] at hprobe
  obtain ⟨values, hvalues, rfl⟩ := Eval.bind_pure_eq_ok.mp (Prod.ext hprobe.1 rfl)
  have hparts := (Constraint.keeps_mapM_pure hm x s.user trivial).2 values (by rw [hvalues])
  exact ⟨values.flatten, ⟨values, hparts, rfl⟩, List.length_flatten⟩

theorem keeps_constraintValues_pure (hI : ∀ s u, I s → I { s with user := u }) (index : ℕ)
    {c : Constraint α σ} (hc : c.value.Pure) (x : Point α) :
    Eval.Keeps I (constraintValues index c x) (c.eval x).Gives := by
  refine (Session.keeps_call_pure hI (hc x c.parameters)).bind
    fun values hvalues ↦ Eval.keeps_get.bind fun s _ ↦ ?_
  split
  · exact (Eval.keeps_ofExcept fun _ _ ↦ trivial).bind fun _ _ ↦ Eval.keeps_pure hvalues
  · exact Eval.keeps_pure hvalues

/-- The stacked values are those of pure constraints. -/
theorem keeps_stackedValues_pure (hI : ∀ s u, I s → I { s with user := u })
    (hm : ∀ c ∈ m.constraints, c.value.Pure) (x : Point α) :
    Eval.Keeps I (m.stackedValues x) (Constraint.Give m.constraints x) := by
  have hparts : Eval.Keeps I (m.constraints.zipIdx.mapM fun p ↦ constraintValues p.2 p.1 x)
      (List.Forall₂ (fun p part ↦ (p.1.eval x).Gives part) m.constraints.zipIdx) :=
    (Strict.safe_mapM fun p hp ↦ Strict.safe_ofEval
      (keeps_constraintValues_pure hI p.2 (hm p.1 (List.fst_mem_of_mem_zipIdx hp)) x)).keeps
  refine hparts.bind fun parts h ↦ Eval.keeps_pure ⟨parts, ?_, rfl⟩
  rw [← List.zipIdx_map_fst 0 m.constraints, List.forall₂_map_left_iff]
  exact h

/-! ## What is kept -/

/-- An evaluation that is kept is one of the callback at its own point. -/
def Remembers (m : Model α σ) (s : Session α σ) : Prop :=
  ∀ both, m.evaluator = .combined both → ∀ e, s.kept = some e →
    (both e.point m.parameters).Gives (e.value, e.gradient)

theorem remembers_probe [Scalar α] {x : Point α} {s s' : Session α σ} {b : RowBounds α}
    (h : m.probe x s = (.ok b, s')) (hs : s.kept = none) : m.Remembers s' := by
  have hprobe : Eval.Keeps (fun s : Session α σ ↦ s.kept = none) (m.probe x) fun _ ↦ True :=
    (Session.keeps_call (fun _ _ h ↦ h) _).bind fun bounds _ ↦
      (Eval.keeps_modify fun _ h ↦ h).bind fun _ _ ↦ Eval.keeps_pure trivial
  have hkept := (hprobe s hs).1
  rw [h] at hkept
  intro both _ e he
  cases hkept.symm.trans he

theorem keeps_evaluateFresh {both : Callback α σ (α × Point α)} (hboth : both.Pure)
    (he : m.evaluator = .combined both) (x : Point α) :
    Eval.Keeps m.Remembers (m.evaluateFresh both x) (both x m.parameters).Gives := by
  have hremark : Eval.Keeps m.Remembers (Session.remark .cacheMiss) fun _ ↦ True :=
    Eval.keeps_lift fun _ hs ↦ hs
  have hcount : Eval.Keeps m.Remembers Session.countEvaluation fun _ ↦ True :=
    Eval.keeps_modify fun _ hs ↦ hs
  have hcall : Eval.Keeps m.Remembers (Session.callUser (both x m.parameters))
      (both x m.parameters).Gives := Session.keeps_call_pure (fun _ _ hs ↦ hs) (hboth x _)
  refine hremark.bind fun _ _ ↦ hcount.bind fun _ _ ↦ hcall.bind fun answer hanswer ↦
    (Eval.keeps_check_gradient answer.2 m.n).bind fun _ _ ↦ ?_
  refine (Eval.keeps_modify fun s _ both' he' e hkept ↦ ?_).bind fun _ _ ↦ Eval.keeps_pure hanswer
  cases he.symm.trans he'
  cases hkept
  exact hanswer

variable [Scalar α]

theorem keeps_evaluateBoth_pure (hsame : ∀ x y : Point α, Point.same x y → x = y)
    {both : Callback α σ (α × Point α)} (hboth : both.Pure) (he : m.evaluator = .combined both)
    (x : Point α) : Eval.Keeps m.Remembers (m.evaluateBoth both x) (both x m.parameters).Gives := by
  have hfresh := keeps_evaluateFresh hboth he x
  intro s hs
  rw [evaluateBoth_apply]
  rcases hkept : s.kept with _ | e
  · exact hfresh s hs
  · simp only
    split
    · rename_i hpoint
      refine ⟨hs, fun answer hanswer ↦ ?_⟩
      cases hanswer
      exact hsame e.point x hpoint ▸ hs both he e hkept
    · exact hfresh s hs

variable (hsame : ∀ x y : Point α, Point.same x y → x = y) (hpure : m.evaluator.source.Pure)

include hsame hpure

theorem keeps_objective_pure (x : Point α) :
    Eval.Keeps m.Remembers (m.objective x) (m.evaluator.source.Gives m.parameters x) := by
  have hvalue : ∀ value : Callback α σ α, value.Pure → Eval.Keeps m.Remembers (do
      Session.countEvaluation
      Session.callUser (value x m.parameters)) (value x m.parameters).Gives := fun value hvalue ↦
    (Eval.keeps_modify fun _ hs ↦ hs).bind fun _ _ ↦
      Session.keeps_call_pure (fun _ _ hs ↦ hs) (hvalue x m.parameters)
  rw [objective]
  rcases he : m.evaluator with value | ⟨value, gradient⟩ | both
  · rw [he] at hpure
    exact hvalue value hpure
  · rw [he] at hpure
    exact hvalue value hpure
  · rw [he] at hpure
    exact (keeps_evaluateBoth_pure hsame hpure he x).bind fun answer hanswer ↦
      Eval.keeps_pure ⟨answer.2, hanswer⟩

theorem remembers_gradient (x : Point α) :
    Eval.Keeps m.Remembers (m.gradient x) fun _ ↦ True := by
  have huser : ∀ s u, m.Remembers s → m.Remembers { s with user := u } := fun _ _ hs ↦ hs
  have hcount : Eval.Keeps m.Remembers Session.countGradient fun _ ↦ True :=
    Eval.keeps_modify fun _ hs ↦ hs
  rw [gradient]
  rcases he : m.evaluator with value | ⟨value, gradient⟩ | both
  · exact hcount.bind fun _ _ ↦ Session.keeps_call huser _
  · refine hcount.bind fun _ _ ↦ (Session.keeps_call huser _).bind fun g _ ↦ ?_
    exact (Eval.keeps_check_gradient g m.n).bind fun _ _ ↦ Eval.keeps_pure trivial
  · rw [he] at hpure
    exact (keeps_evaluateBoth_pure hsame hpure he x).bind fun _ _ ↦ Eval.keeps_pure trivial

end Model

end NonlinearProgram
