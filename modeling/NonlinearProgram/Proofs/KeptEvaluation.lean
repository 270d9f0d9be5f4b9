import NonlinearProgram.Proofs.Memo
import NonlinearProgram.Proofs.Traced

/-!
# The kept evaluation

A session keeps one evaluation of a callback that gives value and gradient together. Here the
callback is a function whose calls are written down, and which may fault or answer with a gradient
of the wrong length at some of the points.

Which calls were made decides everything that is kept and counted (`Session.Follows`): the kept
evaluation is that of the last call that succeeded, and a call is an evaluation whether it succeeded
or not. A request is answered from what is kept if its point compares equal to the point of that
call, and is a call of its own otherwise (`Model.Serves`). The points of both need not be equal, and
a point with an undefined coordinate does not compare equal even to itself. Whatever requests came
before, the answer is that of a call at the point asked for (`Model.serve_watched`).
-/

namespace NonlinearProgram

variable {α σ : Type}

/-- A function that gives value and gradient together, as a callback whose calls are written
down. -/
def Callback.watched (fg : Point α → Parameters α → Except (Fault α) (α × Point α)) :
    Callback α (Traced (Point α) σ) (α × Point α) :=
  fun x p ↦ Traced.call x (Eval.ofExcept (fg x p))

/-- What is asked for at a point: the value or the gradient. -/
inductive Wanted where
  | value
  | gradient

/-- The request for it. -/
def Wanted.ask (wanted : Wanted) (x : Point α) : Ask α :=
  match wanted with
  | value => .objective x
  | gradient => .gradient x

namespace Model

/-! ## Evaluations

All that is kept can be read off the list of points that the callback was called at, since the
callback is a function. What is compared with the point asked for is the point of the last call that
succeeded, and a failed call in between changes nothing. -/

section Direct

variable (m : Model α σ) (fg : Point α → Parameters α → Except (Fault α) (α × Point α))

/-- Value and gradient from a call at `x`. -/
def direct (x : Point α) : Except (Fault α) (α × Point α) := do
  let (value, gradient) ← fg x m.parameters
  Check.gradient gradient m.n
  pure (value, gradient)

/-- The evaluation at `x`, if a call there succeeds. -/
def evaluation? (x : Point α) : Option (Evaluation α) :=
  match m.direct fg x with
  | .ok (value, gradient) => some ⟨x, value, gradient⟩
  | .error _ => none

/-- The evaluation of the last of the calls that succeeded. -/
def latest (calls : List (Point α)) : Option (Evaluation α) :=
  calls.reverse.findSome? (m.evaluation? fg)

/-- Whether `x` compares equal to the point of the last of the calls that succeeded. -/
def recalls [Scalar α] (calls : List (Point α)) (x : Point α) : Bool :=
  (m.latest fg calls).any fun e ↦ Point.same e.point x

variable {m fg}

theorem evaluation?_eq_some {x : Point α} {e : Evaluation α} (h : m.evaluation? fg x = some e) :
    e.point = x ∧ m.direct fg x = .ok (e.value, e.gradient) := by
  rw [evaluation?] at h
  split at h
  · rename_i hdirect
    cases h
    exact ⟨rfl, hdirect⟩
  · cases h

theorem evaluation?_of_error {x : Point α} {fault : Fault α} (h : m.direct fg x = .error fault) :
    m.evaluation? fg x = none := by
  rw [evaluation?, h]

theorem latest_append (calls : List (Point α)) (x : Point α) :
    m.latest fg (calls ++ [x]) = (m.evaluation? fg x).or (m.latest fg calls) := by
  rw [latest, List.reverse_append, List.reverse_singleton, List.singleton_append,
    List.findSome?_cons, ← latest]
  cases m.evaluation? fg x <;> rfl

theorem direct_of_latest {calls : List (Point α)} {e : Evaluation α}
    (h : m.latest fg calls = some e) : m.direct fg e.point = .ok (e.value, e.gradient) := by
  obtain ⟨x, -, hx⟩ := List.exists_of_findSome?_eq_some h
  obtain ⟨rfl, hdirect⟩ := evaluation?_eq_some hx
  exact hdirect

variable [Scalar α] (hsame : ∀ x y, Point.same x y → fg x m.parameters = fg y m.parameters)

include hsame

theorem direct_of_same {x y : Point α} (h : Point.same x y) : m.direct fg x = m.direct fg y := by
  rw [direct, direct, hsame x y h]

/-- A point that is recalled has the value and the gradient of the point it is recalled for. -/
theorem direct_of_recalls {calls : List (Point α)} {x : Point α}
    (h : m.recalls fg calls x) : ∃ e, m.latest fg calls = some e ∧ Point.same e.point x ∧
      m.direct fg x = .ok (e.value, e.gradient) := by
  obtain ⟨e, he, hpoint⟩ := Option.any_eq_true _ _ |>.mp h
  exact ⟨e, he, hpoint, (direct_of_same hsame hpoint).symm.trans (direct_of_latest he)⟩

theorem recalls_of_error {calls : List (Point α)} {x : Point α} {fault : Fault α}
    (h : m.direct fg x = .error fault) : m.recalls fg calls x = false := by
  by_contra hrecalls
  obtain ⟨e, -, -, hdirect⟩ := direct_of_recalls hsame (Bool.eq_true_of_not_eq_false hrecalls)
  cases h.symm.trans hdirect

end Direct

/-! ## Requests

One request takes the session to `asked`, and this is all that happens to it. It follows the calls
that it makes, so that by induction any number of requests does, and the answer to one more is read
off the session that they leave. -/

section Watched

variable (m : Model α (Traced (Point α) σ))
  (fg : Point α → Parameters α → Except (Fault α) (α × Point α))

/-- The model with a watched function for value and gradient. -/
def watching : Model α (Traced (Point α) σ) :=
  m.withEvaluator (.combined (Callback.watched fg))

/-- The session after a call at `x`. -/
def called (x : Point α) (s : Session α (Traced (Point α) σ)) : Session α (Traced (Point α) σ) :=
  { s with
    user := s.user.emit x
    remarks := s.remarks.push .cacheMiss
    evaluations := s.evaluations + 1
    kept := (m.evaluation? fg x).or s.kept }

/-- The session after a request at `x`. -/
def asked [Scalar α] (x : Point α) (s : Session α (Traced (Point α) σ)) :
    Session α (Traced (Point α) σ) :=
  if m.recalls fg s.user.trace x then (Session.note .cacheHit s).2 else m.called fg x s

/-- What the calls decide: the kept evaluation is that of the last call that succeeded, and every
call is an evaluation and no gradient. -/
structure Follows (s : Session α (Traced (Point α) σ)) : Prop where
  kept : s.kept = m.latest fg s.user.trace
  evaluations : s.evaluations = s.user.trace.length
  gradients : s.gradients = 0

variable {m fg}

theorem evaluateFresh_watched (x : Point α) (s : Session α (Traced (Point α) σ)) :
    m.evaluateFresh (Callback.watched fg) x s = (m.direct fg x, m.called fg x s) := by
  refine (Eval.bind_of_ok rfl _).trans ?_
  refine (Eval.bind_of_ok rfl _).trans ?_
  rw [called, evaluation?, direct]
  rcases hcall : fg x m.parameters with fault | ⟨value, gradient⟩
  · refine Eval.bind_of_error (Session.callUser_of_eq (Traced.call_of_eq ?_)) _
    rw [hcall, Eval.ofExcept_apply]
  · have hanswer : Session.callUser (Callback.watched fg x m.parameters)
        { s with remarks := s.remarks.push .cacheMiss, evaluations := s.evaluations + 1 } =
        (.ok (value, gradient), { s with
          user := s.user.emit x
          remarks := s.remarks.push .cacheMiss
          evaluations := s.evaluations + 1 }) :=
      Session.callUser_of_eq (Traced.call_of_eq (by rw [hcall, Eval.ofExcept_apply]))
    refine (Eval.bind_of_ok hanswer _).trans ?_
    -- the gradient is checked before the evaluation is kept
    rcases hcheck : (Check.gradient gradient m.n : Except (Fault α) Unit) with fault | _
    · simp only [bind, Except.bind, hcheck]
      rfl
    · simp only [bind, Except.bind, hcheck]
      rfl

variable [Scalar α] {s : Session α (Traced (Point α) σ)}

theorem asked_of_recalls {x : Point α} (h : m.recalls fg s.user.trace x) :
    m.asked fg x s = (Session.note .cacheHit s).2 := if_pos h

theorem asked_of_not_recalls {x : Point α} (h : ¬m.recalls fg s.user.trace x) :
    m.asked fg x s = m.called fg x s := if_neg h

theorem Follows.asked (hs : m.Follows fg s) (x : Point α) :
    m.Follows fg (m.asked fg x s) := by
  by_cases h : m.recalls fg s.user.trace x
  · rw [asked_of_recalls h]
    exact ⟨hs.kept, hs.evaluations, hs.gradients⟩
  · rw [asked_of_not_recalls h]
    constructor
    · show (m.evaluation? fg x).or s.kept = m.latest fg (s.user.trace ++ [x])
      rw [latest_append, hs.kept]
    · show s.evaluations + 1 = (s.user.trace ++ [x]).length
      rw [List.length_append, List.length_singleton, hs.evaluations]
    · exact hs.gradients

/-- What a request at `x` does to a session. It is a call, and an evaluation, exactly if `x` does
not compare equal to the point of the last call that succeeded. -/
structure Serves (m : Model α (Traced (Point α) σ))
    (fg : Point α → Parameters α → Except (Fault α) (α × Point α)) (x : Point α)
    (s s' : Session α (Traced (Point α) σ)) : Prop where
  calls : s'.user.trace = s.user.trace ++ if m.recalls fg s.user.trace x then [] else [x]
  evaluations : s'.evaluations = s.evaluations + if m.recalls fg s.user.trace x then 0 else 1
  gradients : s'.gradients = s.gradients
  failed : ∀ fault, m.direct fg x = .error fault →
    s'.evaluations = s.evaluations + 1 ∧ s'.kept = s.kept

variable (hsame : ∀ x y, Point.same x y → fg x m.parameters = fg y m.parameters)

include hsame

theorem serves_asked (s : Session α (Traced (Point α) σ)) (x : Point α) :
    m.Serves fg x s (m.asked fg x s) := by
  have hfailed : ∀ fault, m.direct fg x = .error fault →
      (m.asked fg x s).evaluations = s.evaluations + 1 ∧ (m.asked fg x s).kept = s.kept := by
    intro fault h
    rw [asked_of_not_recalls (by rw [recalls_of_error hsame h]; exact Bool.false_ne_true), called,
      evaluation?_of_error h]
    exact ⟨rfl, rfl⟩
  by_cases h : m.recalls fg s.user.trace x
  · rw [asked_of_recalls h] at hfailed ⊢
    refine ⟨?_, ?_, rfl, hfailed⟩
    · rw [if_pos h, List.append_nil]
      rfl
    · rw [if_pos h]
      rfl
  · rw [asked_of_not_recalls h] at hfailed ⊢
    refine ⟨?_, ?_, rfl, hfailed⟩
    · rw [if_neg h]
      rfl
    · rw [if_neg h]
      rfl

/-- A request at `x` is answered as by a call at `x`, from what is kept or by a call. -/
theorem evaluateBoth_watched (hs : m.Follows fg s) (x : Point α) :
    m.evaluateBoth (Callback.watched fg) x s = (m.direct fg x, m.asked fg x s) := by
  rw [evaluateBoth_apply, hs.kept, evaluateFresh_watched]
  by_cases h : m.recalls fg s.user.trace x
  · obtain ⟨e, he, hpoint, hdirect⟩ := direct_of_recalls hsame h
    rw [asked_of_recalls h, he, hdirect]
    exact if_pos hpoint
  · rw [asked_of_not_recalls h]
    rcases he : m.latest fg s.user.trace with _ | e
    · rfl
    · refine if_neg fun hpoint ↦ h ?_
      rw [recalls, he]
      exact hpoint

theorem objective_watched (hs : m.Follows fg s) (x : Point α) :
    (m.watching fg).objective x s = ((m.direct fg x).map Prod.fst, m.asked fg x s) :=
  Eval.bind_pure_apply (evaluateBoth_watched hsame hs x) Prod.fst

theorem gradient_watched (hs : m.Follows fg s) (x : Point α) :
    (m.watching fg).gradient x s = ((m.direct fg x).map Prod.snd, m.asked fg x s) :=
  Eval.bind_pure_apply (evaluateBoth_watched hsame hs x) Prod.snd

theorem answer_watched (hs : m.Follows fg s) (wanted : Wanted) (x : Point α) :
    (m.watching fg).answer s (wanted.ask x) = m.asked fg x s := by
  cases wanted with
  | value => exact congrArg Prod.snd (objective_watched hsame hs x)
  | gradient => exact congrArg Prod.snd (gradient_watched hsame hs x)

theorem Follows.serve (hs : m.Follows fg s) (requests : List (Wanted × Point α)) :
    m.Follows fg ((m.watching fg).serve (requests.map fun r ↦ r.1.ask r.2) s) := by
  induction requests generalizing s with
  | nil => exact hs
  | cons r requests ih =>
    apply ih
    rw [answer_watched hsame hs]
    exact hs.asked r.2

/-- **A kept evaluation does not show, and saves the calls it can.** Whatever values and gradients
were asked for before, the answer at a point is that of a call there: the value, the gradient, the
fault, or the wrong length. It is a call exactly if the point does not compare equal to that of the
last call that succeeded; each call is an evaluation, and one that fails keeps nothing. -/
theorem serve_watched (u : σ) (arities : Option (List ℕ)) (before : List (Wanted × Point α))
    (x : Point α) :
    let s := (m.watching fg).serve (before.map fun r ↦ r.1.ask r.2)
      { user := ⟨[], u⟩, arities := arities }
    m.Follows fg s ∧
      ((m.watching fg).objective x s).1 = (m.direct fg x).map Prod.fst ∧
      ((m.watching fg).gradient x s).1 = (m.direct fg x).map Prod.snd ∧
      ∀ wanted : Wanted, m.Serves fg x s ((m.watching fg).answer s (wanted.ask x)) := by
  intro s
  have hstart : m.Follows fg { user := ⟨[], u⟩, arities := arities } := ⟨rfl, rfl, rfl⟩
  have hs : m.Follows fg s := hstart.serve hsame before
  refine ⟨hs, ?_, ?_, fun wanted ↦ ?_⟩
  · rw [objective_watched hsame hs]
  · rw [gradient_watched hsame hs]
  · rw [answer_watched hsame hs]
    exact serves_asked hsame s x

omit hsame in
/-- The way from one, which faults far to the right and has no gradient far to the left. -/
def offset (x : Point Float) (_ : Parameters Float) :
    Except (Fault Float) (Float × Point Float) :=
  let d := x.coord 0 - 1.0
  if 2.0 < d then .error (.evaluation "too far")
  else if d < -2.0 then .ok (d, [])
  else .ok (d, [1.0])

omit hsame in
theorem serve_watched_offset :
    let m : Model Float (Traced (Point Float) Unit) :=
      ⟨.differences fun _ _ ↦ pure 0.0, ∅, [], .auto, 1⟩
    let before : List (Wanted × Point Float) := [(.value, [0.0]), (.value, [5.0]),
      (.gradient, [-4.0]), (.gradient, [-0.0]), (.value, [0.0 / 0.0])]
    let x : Point Float := [0.0 / 0.0]
    let s := (m.watching offset).serve (before.map fun r ↦ r.1.ask r.2) { user := ⟨[], ()⟩ }
    (∀ x y, Point.same x y → offset x m.parameters = offset y m.parameters) ∧
      (m.Follows offset s ∧
        ((m.watching offset).objective x s).1 = (m.direct offset x).map Prod.fst ∧
        ((m.watching offset).gradient x s).1 = (m.direct offset x).map Prod.snd ∧
        ∀ wanted : Wanted, m.Serves offset x s
          ((m.watching offset).answer s (wanted.ask x))) ∧
      s.evaluations = 4 ∧
      ((m.watching offset).answer s (.gradient x)).evaluations = 5 := by
  intro m before x s
  have hsame : ∀ x y, Point.same x y → offset x m.parameters = offset y m.parameters := by
    intro x y h
    rw [offset, offset, Request.sub_one_of_same h]
  refine ⟨hsame, serve_watched hsame () none before x, ?_, ?_⟩
  · decide +kernel
  · decide +kernel

end Watched

end Model

end NonlinearProgram
