import NonlinearProgram.Lagrangian.Run
import NonlinearProgram.Proofs.Sequence

/-!
# Recorded problems

`Problem.recorded` is a problem that answers as another one does and writes down what passes: every
call of an operation, with its point and its fault, and every report of an iteration, with the
answer to it. A solver cannot see the record, since it is part of the state of the problem; so what
a run on the recorded problem leaves there is what the run did.

## What a recorded computation does

`Recorded.Follows` compares a computation on a problem with the same computation on the recorded
problem: the answers and the states agree, events are only added, and the first fault among the
added ones is the one that can be read off the answer. The last clause is what a fault that is
handed on at once gives, and it is kept by every sequence because a sequence stops at its first
fault.

An optimizer need not hand faults on, and for it that clause fails. `Watched.Follows` is the clause
that holds instead: the failure that is kept is the first fault added, unless there was one before.
-/

namespace NonlinearProgram

/-- The operations of a problem that may fault. -/
inductive Operation where
  | objective
  | gradient
  | constraints
  | jacobian
  deriving DecidableEq, Repr

/-- What passes between a solver and a problem. -/
inductive Event (α : Type) where
  /-- An operation was called at a point, and faulted or not. -/
  | called (operation : Operation) (x : Point α) (fault : Option (Fault α))
  /-- An iteration was reported, and the problem agreed to go on or not. -/
  | reported (report : Report α) (agreed : Bool)

/-- The fault of a call, if there was one. -/
def Event.fault? {α : Type} : Event α → Option (Fault α)
  | .called _ _ fault => fault
  | .reported _ _ => none

/-- The fault of the first call that faulted. -/
def firstFault {α : Type} (events : List (Event α)) : Option (Fault α) :=
  events.findSome? Event.fault?

@[simp] theorem firstFault_nil {α : Type} : firstFault ([] : List (Event α)) = none := rfl

@[simp] theorem firstFault_append {α : Type} (before after : List (Event α)) :
    firstFault (before ++ after) = (firstFault before).or (firstFault after) :=
  List.findSome?_append

@[simp] theorem firstFault_called {α : Type} (operation : Operation) (x : Point α)
    (fault : Option (Fault α)) : firstFault [.called operation x fault] = fault := by
  cases fault <;> rfl

/-- The state of a problem beside what has passed. -/
structure Recorded (α σ : Type) where
  events : List (Event α)
  problem : σ

/-- An operation that is written down. -/
def Recorded.call {α σ β : Type} (operation : Operation) (x : Point α) (act : Eval α σ β) :
    Eval α (Recorded α σ) β := fun r ↦
  let (answer, s) := act r.problem
  (answer, ⟨r.events ++ [.called operation x (Fault.ofResult? answer)], s⟩)

/-- The problem that writes down what passes. -/
def Problem.recorded {α σ : Type} (p : Problem α σ) : Problem α (Recorded α σ) where
  objective x := Recorded.call .objective x (p.objective x)
  gradient x := Recorded.call .gradient x (p.gradient x)
  constraints x := Recorded.call .constraints x (p.constraints x)
  jacobian x := Recorded.call .jacobian x (p.jacobian x)
  intermediate report := fun r ↦
    let (agreed, s) := p.intermediate report r.problem
    (agreed, ⟨r.events ++ [.reported report agreed], s⟩)
  note remark := fun r ↦ ((), ⟨r.events, (p.note remark r.problem).2⟩)

variable {α σ β γ : Type}

namespace Recorded

/-- The second computation does what the first one does and adds events, of which the first fault
is the one that `fault?` reads off the answer. -/
def Follows (fault? : β → Option (Fault α)) (act : StateM σ β) (act' : StateM (Recorded α σ) β) :
    Prop :=
  ∀ before s, ∃ events, act' ⟨before, s⟩ = ((act s).1, ⟨before ++ events, (act s).2⟩) ∧
    fault? (act s).1 = firstFault events

/-- A recorded computation that may fault. -/
abbrev FollowsEval (act : Eval α σ β) (act' : Eval α (Recorded α σ) β) : Prop :=
  Follows Fault.ofResult? act act'

theorem follows_call (operation : Operation) (x : Point α) (act : Eval α σ β) :
    FollowsEval act (Recorded.call operation x act) := fun _ s ↦
  ⟨[.called operation x (Fault.ofResult? (act s).1)], rfl, (firstFault_called ..).symm⟩

theorem follows_pure (b : β) : FollowsEval (pure b : Eval α σ β) (pure b) := fun before _ ↦
  ⟨[], by rw [List.append_nil]; rfl, rfl⟩

/-- A sequence stops at its first fault, so the first fault of its parts is that of the whole. -/
theorem FollowsEval.bind {act : Eval α σ β} {act' : Eval α (Recorded α σ) β}
    {f : β → Eval α σ γ} {f' : β → Eval α (Recorded α σ) γ} (h : FollowsEval act act')
    (hf : ∀ b, FollowsEval (f b) (f' b)) : FollowsEval (act >>= f) (act' >>= f') := by
  intro before s
  obtain ⟨events, hact', hfault⟩ := h before s
  rcases hact : act s with ⟨fault | b, s₁⟩
  · rw [hact] at hact' hfault
    exact ⟨events, by rw [Eval.bind_of_error hact, Eval.bind_of_error hact'],
      by rw [Eval.bind_of_error hact]; exact hfault⟩
  · rw [hact] at hact' hfault
    obtain ⟨more, hf', hmore⟩ := hf b (before ++ events) s₁
    refine ⟨events ++ more, ?_, ?_⟩
    · rw [Eval.bind_of_ok hact, Eval.bind_of_ok hact', hf', List.append_assoc]
    · rw [Eval.bind_of_ok hact, hmore, firstFault_append, ← hfault]
      rfl

theorem Follows.lift_bind {fault? : β → Option (Fault α)} {act : StateM σ β}
    {act' : StateM (Recorded α σ) β} {f : β → Eval α σ γ} {f' : β → Eval α (Recorded α σ) γ}
    (h : Follows fault? act act')
    (hthrow : ∀ b fault, fault? b = some fault → f b = throw fault ∧ f' b = throw fault)
    (hf : ∀ b, fault? b = none → FollowsEval (f b) (f' b)) :
    FollowsEval (ExceptT.lift act >>= f) (ExceptT.lift act' >>= f') := by
  intro before s
  obtain ⟨events, hact', hfault⟩ := h before s
  rw [Eval.bind_of_ok (Eval.lift_apply act s), Eval.bind_of_ok (Eval.lift_apply act' _), hact']
  rcases hb : fault? (act s).1 with _ | fault
  · obtain ⟨more, hf', hmore⟩ := hf _ hb (before ++ events) (act s).2
    refine ⟨events ++ more, by rw [hf', List.append_assoc], ?_⟩
    rw [hmore, firstFault_append, ← hfault, hb]
    rfl
  · obtain ⟨h₁, h₂⟩ := hthrow _ _ hb
    exact ⟨events, by rw [h₁, h₂]; rfl, by rw [h₁, ← hfault, hb]; rfl⟩

theorem Follows.lift {act : StateM σ β} {act' : StateM (Recorded α σ) β}
    (h : Follows (fun _ ↦ none) act act') :
    FollowsEval (ExceptT.lift act) (ExceptT.lift act') := by
  intro before s
  obtain ⟨events, hact', hfault⟩ := h before s
  exact ⟨events, by rw [Eval.lift_apply, hact', Eval.lift_apply], hfault⟩

/-! ## The operations of a recorded problem -/

theorem follows_intermediate (p : Problem α σ) (report : Report α) :
    Follows (fun _ ↦ none) (p.intermediate report) (p.recorded.intermediate report) := fun _ s ↦
  ⟨[.reported report (p.intermediate report s).1], rfl, rfl⟩

theorem follows_note (p : Problem α σ) (remark : Remark α) :
    Follows (fun _ ↦ none) (p.note remark) (p.recorded.note remark) := fun before s ↦
  ⟨[], by rw [List.append_nil]; rfl, rfl⟩

end Recorded

/-! ## Computations under watch -/

namespace Watched

/-- The second computation does what the first one does and adds events, and the failure that it
keeps is the first fault of these, unless one was kept before. -/
def Follows (act : StateM (Watched α σ) β) (act' : StateM (Watched α (Recorded α σ)) β) : Prop :=
  ∀ failure before s, ∃ events,
    act' ⟨failure, before, s⟩ = ((act ⟨failure, s⟩).1, ⟨(act ⟨failure, s⟩).2.failure,
      before ++ events, (act ⟨failure, s⟩).2.problem⟩) ∧
    (act ⟨failure, s⟩).2.failure = failure.or (firstFault events)

theorem follows_watch {act : Eval α σ β} {act' : Eval α (Recorded α σ) β}
    (h : Recorded.FollowsEval act act') : Follows (watch act) (watch act') := by
  intro failure before s
  obtain ⟨events, hact', hfault⟩ := h before s
  refine ⟨events, ?_, ?_⟩
  · simp only [watch]
    rw [hact']
    rcases act s with ⟨_ | _, _⟩ <;> rfl
  · rw [← hfault]
    simp only [watch]
    rcases act s with ⟨_ | _, _⟩ <;> cases failure <;> rfl

theorem follows_pure (b : β) :
    Follows (pure b : StateM (Watched α σ) β) (pure b) := fun failure before s ↦
  ⟨[], by rw [List.append_nil]; rfl, by cases failure <;> rfl⟩

/-- Of two computations in a row the failure of the first one is kept, whatever it answered. -/
theorem Follows.bind {act : StateM (Watched α σ) β} {act' : StateM (Watched α (Recorded α σ)) β}
    {f : β → StateM (Watched α σ) γ} {f' : β → StateM (Watched α (Recorded α σ)) γ}
    (h : Follows act act') (hf : ∀ b, Follows (f b) (f' b)) :
    Follows (act >>= f) (act' >>= f') := by
  intro failure before s
  obtain ⟨events, hact', hfault⟩ := h failure before s
  have hbind : (act >>= f) ⟨failure, s⟩ = f (act ⟨failure, s⟩).1 (act ⟨failure, s⟩).2 := rfl
  have hbind' : (act' >>= f') ⟨failure, before, s⟩
      = f' (act' ⟨failure, before, s⟩).1 (act' ⟨failure, before, s⟩).2 := rfl
  obtain ⟨more, hf', hmore⟩ := hf (act ⟨failure, s⟩).1 (act ⟨failure, s⟩).2.failure
    (before ++ events) (act ⟨failure, s⟩).2.problem
  refine ⟨events ++ more, ?_, ?_⟩
  · rw [hbind, hbind', hact', hf', List.append_assoc]
  · rw [hbind, hmore, firstFault_append, ← Option.or_assoc, ← hfault]

theorem Follows.bindEval {act : Eval α (Watched α σ) β}
    {act' : Eval α (Watched α (Recorded α σ)) β} {f : β → Eval α (Watched α σ) γ}
    {f' : β → Eval α (Watched α (Recorded α σ)) γ} (h : Follows act act')
    (hf : ∀ b, Follows (f b) (f' b)) :
    Follows (act >>= f : Eval α (Watched α σ) γ) (act' >>= f' : Eval α _ γ) := by
  have hcont : ∀ result, Follows (ExceptT.bindCont f result) (ExceptT.bindCont f' result) := by
    intro result
    rcases result with fault | b
    · exact follows_pure (Except.error fault)
    · exact hf b
  exact Follows.bind h hcont

/-- Whatever an optimizer makes of the answers, the failure that is kept is the first fault among
all calls. -/
theorem follows_run {costs : Point α → Eval α (Watched α σ) α}
    {costs' : Point α → Eval α (Watched α (Recorded α σ)) α}
    {gradients : Point α → Eval α (Watched α σ) (Point α)}
    {gradients' : Point α → Eval α (Watched α (Recorded α σ)) (Point α)}
    (hcosts : ∀ x, Follows (costs x) (costs' x))
    (hgradients : ∀ x, Follows (gradients x) (gradients' x)) (q : Query α β) :
    Follows (q.run costs gradients) (q.run costs' gradients') := by
  induction q with
  | pure result => exact follows_pure result
  | cost x next ih => exact (hcosts x).bind ih
  | gradient x next ih => exact (hgradients x).bind ih

end Watched

end NonlinearProgram
