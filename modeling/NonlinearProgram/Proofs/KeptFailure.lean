import Mathlib.Data.List.Forall2
import NonlinearProgram.Proofs.FirstFault

/-!
# The failure that is kept

Evaluations of merits keep the first fault in one place, beside the state of the problem. An
optimizer may call merits in any order, at any points, and again after a call has failed: in the end
that place holds the first fault that any operation of the problem raised, and is empty if none did
(`MeritCall.performAll_keeps_firstFault`).

Each call is a short sequence of operations at its point, which ends at the first that faults
(`Attempted`), and the error that the optimizer gets holds that very fault, also where an earlier
one is kept. A merit without rows never asks for rows or their derivative.
-/

namespace NonlinearProgram

variable {α σ β γ : Type}

/-- The fault that an error of a numeric routine holds, if it holds one. -/
def RoutineError.fault? : RoutineError α → Option (Fault α)
  | .fault met => some met
  | _ => none

/-! ## Operations in a row

Which operations a merit asks for depends on its layout and not on what the operations answer. So a
call is described by the list of its operations and by the events of the first few of them. -/

/-- The events of operations that are called at a point one after the other, up to the first that
faults, and the fault. -/
inductive Attempted (x : Point α) : List Operation → Option (Fault α) → List (Event α) → Prop
  | done : Attempted x [] none []
  | passed {operation : Operation} {operations : List Operation} {fault? : Option (Fault α)}
      {events : List (Event α)} (rest : Attempted x operations fault? events) :
      Attempted x (operation :: operations) fault? (.called operation x none :: events)
  | faulted {operation : Operation} {operations : List Operation} {fault : Fault α} :
      Attempted x (operation :: operations) (some fault) [.called operation x (some fault)]

namespace Attempted

variable {x : Point α} {operations operations' : List Operation} {events events' : List (Event α)}

theorem append {fault? : Option (Fault α)} (h : Attempted x operations none events)
    (h' : Attempted x operations' fault? events') :
    Attempted x (operations ++ operations') fault? (events ++ events') := by
  generalize hnone : (none : Option (Fault α)) = first at h
  induction h with
  | done => exact h'
  | passed _ ih => exact .passed (ih hnone)
  | faulted => cases hnone

theorem append_of_fault {fault : Fault α} (h : Attempted x operations (some fault) events)
    (operations' : List Operation) :
    Attempted x (operations ++ operations') (some fault) events := by
  generalize hsome : some fault = last at h ⊢
  induction h with
  | done => cases hsome
  | passed _ ih => exact .passed (ih hsome)
  | faulted => exact .faulted

end Attempted

namespace Watched

/-- A computation on a recorded problem calls the operations at the point one after the other, and
faults exactly if one of them does, with its fault. -/
def Calls (x : Point α) (operations : List Operation)
    (act : Eval α (Watched α (Recorded α σ)) β) : Prop :=
  ∀ w, ∃ events, (act w).2.problem.events = w.problem.events ++ events ∧
    Attempted x operations (Fault.ofResult? (act w).1) events

variable {x : Point α} {operations operations' : List Operation}

theorem calls_pure (b : β) : Calls (σ := σ) x [] (pure b) := fun _ ↦
  ⟨[], (List.append_nil _).symm, .done⟩

theorem calls_watch_pure (b : β) : Calls (σ := σ) x [] (watch (pure b)) := fun _ ↦
  ⟨[], (List.append_nil _).symm, .done⟩

theorem calls_watch_call (operation : Operation) (act : Eval α σ β) :
    Calls x [operation] (watch (Recorded.call operation x act)) := by
  intro w
  simp only [watch, Recorded.call]
  rcases act w.problem.problem with ⟨fault | b, s⟩
  · exact ⟨_, rfl, .faulted⟩
  · exact ⟨_, rfl, .passed .done⟩

theorem Calls.bind {act : Eval α (Watched α (Recorded α σ)) β}
    {f : β → Eval α (Watched α (Recorded α σ)) γ} (h : Calls x operations act)
    (hf : ∀ b, Calls x operations' (f b)) : Calls x (operations ++ operations') (act >>= f) := by
  intro w
  obtain ⟨events, hevents, hattempted⟩ := h w
  rcases hact : act w with ⟨fault | b, w₁⟩
  · rw [hact] at hevents hattempted
    rw [Eval.bind_of_error hact]
    exact ⟨events, hevents, hattempted.append_of_fault _⟩
  · rw [hact] at hevents hattempted
    obtain ⟨more, hmore, hrest⟩ := hf b w₁
    rw [Eval.bind_of_ok hact]
    refine ⟨events ++ more, ?_, hattempted.append hrest⟩
    rw [hmore, hevents, List.append_assoc]

end Watched

/-! ## Calls of merits

A call is a value here and not a computation, so that calls in a row can be a list. The merit and
its multipliers may be another at each call. -/

/-- A call of a merit: for its value or for its gradient at a point. -/
inductive MeritCall (α : Type) where
  | cost (m : Merit α) (x : Point α)
  | gradient (m : Merit α) (x : Point α)

namespace MeritCall

/-- What a call returns: a value or a gradient, or an error. -/
abbrev Outcome (α : Type) : Type := Except (RoutineError α) (α ⊕ Point α)

/-- The merit that is called. -/
def merit : MeritCall α → Merit α
  | cost m _ | gradient m _ => m

/-- Where it is called. -/
def point : MeritCall α → Point α
  | cost _ x | gradient _ x => x

/-- The operations of a call, in their order. -/
def operations : MeritCall α → List Operation
  | cost m _ => if m.layout.m = 0 then [.objective] else [.objective, .constraints]
  | gradient m _ =>
    if m.layout.m = 0 then [.gradient] else [.gradient, .constraints, .jacobian]

/-- An answer as an optimizer gets it, a fault of the problem inside an error. -/
def hand (kind : β → α ⊕ Point α) (answer : Except (Fault α) β) : Outcome α :=
  (answer.map kind).mapError .fault

/-- What a call returned and the events that it left belong together: the operations were called at
the point in their order up to the first that faulted, and if one did, the call returned an error
that holds its fault. -/
inductive Logged (call : MeritCall α) : Outcome α × List (Event α) → Prop
  | answered {answer : α ⊕ Point α} {events : List (Event α)}
      (h : Attempted call.point call.operations none events) : Logged call (.ok answer, events)
  | failed {error : RoutineError α} {fault : Fault α} {events : List (Event α)}
      (herror : error.fault? = some fault)
      (h : Attempted call.point call.operations (some fault) events) :
      Logged call (.error error, events)

theorem logged_hand (call : MeritCall α) {answer : Except (Fault α) β} {events : List (Event α)}
    (h : Attempted call.point call.operations (Fault.ofResult? answer) events)
    (kind : β → α ⊕ Point α) : call.Logged (hand kind answer, events) := by
  cases answer with
  | error fault => exact .failed rfl h
  | ok b => exact .answered h

variable [Scalar α]

/-- Makes a call. -/
def perform (p : Problem α σ) : MeritCall α → StateM (Watched α σ) (Outcome α)
  | cost m x => do
    let answer ← (m.cost p x).run
    pure (hand .inl answer)
  | gradient m x => do
    let answer ← (m.gradient p x).run
    pure (hand .inr answer)

/-- Makes calls in a row, whatever they return. -/
def performAll (p : Problem α σ) : List (MeritCall α) → StateM (Watched α σ) (List (Outcome α))
  | [] => pure []
  | call :: calls => do
    let outcome ← call.perform p
    let rest ← performAll p calls
    pure (outcome :: rest)

/-! ## One call -/

theorem follows_perform (call : MeritCall α) (p : Problem α σ) :
    Watched.Follows (call.perform p) (call.perform p.recorded) := by
  cases call with
  | cost m x => exact (m.follows_cost p x).bind fun _ ↦ Watched.follows_pure _
  | gradient m x => exact (m.follows_gradient p x).bind fun _ ↦ Watched.follows_pure _

theorem calls_cost (m : Merit α) (p : Problem α σ) (x : Point α) :
    Watched.Calls x (cost m x).operations (m.cost p.recorded x) := by
  rw [operations, Merit.cost, Layout.rows]
  split
  · exact (Watched.calls_watch_call .objective _).bind fun _ ↦
      (Watched.calls_watch_pure _).bind fun _ ↦ Watched.calls_pure _
  · exact (Watched.calls_watch_call .objective _).bind fun _ ↦
      (Watched.calls_watch_call .constraints _).bind fun _ ↦ Watched.calls_pure _

theorem calls_gradient (m : Merit α) (p : Problem α σ) (x : Point α) :
    Watched.Calls x (gradient m x).operations (m.gradient p.recorded x) := by
  rw [operations, Merit.gradient, Layout.rows, Layout.slopes]
  split
  · exact (Watched.calls_watch_call .gradient _).bind fun _ ↦
      (Watched.calls_watch_pure _).bind fun _ ↦
      (Watched.calls_watch_pure _).bind fun _ ↦ Watched.calls_pure _
  · exact (Watched.calls_watch_call .gradient _).bind fun _ ↦
      (Watched.calls_watch_call .constraints _).bind fun _ ↦
      (Watched.calls_watch_call .jacobian _).bind fun _ ↦ Watched.calls_pure _

theorem logged_perform (call : MeritCall α) (p : Problem α σ) (w : Watched α (Recorded α σ)) :
    ∃ events, (call.perform p.recorded w).2.problem.events = w.problem.events ++ events ∧
      call.Logged ((call.perform p.recorded w).1, events) := by
  cases call with
  | cost m x =>
    obtain ⟨events, hevents, hattempted⟩ := calls_cost m p x w
    exact ⟨events, hevents, logged_hand (cost m x) hattempted _⟩
  | gradient m x =>
    obtain ⟨events, hevents, hattempted⟩ := calls_gradient m p x w
    exact ⟨events, hevents, logged_hand (gradient m x) hattempted _⟩

/-- The step: a call returns the same on the problem and on the recorded problem, it leaves its
events, and a failure that was kept before stays. -/
theorem perform_recorded (call : MeritCall α) (p : Problem α σ) (failure : Option (Fault α))
    (before : List (Event α)) (s : σ) :
    ∃ outcome events s',
      call.perform p ⟨failure, s⟩ = (outcome, ⟨failure.or (firstFault events), s'⟩) ∧
      call.perform p.recorded ⟨failure, before, s⟩
        = (outcome, ⟨failure.or (firstFault events), before ++ events, s'⟩) ∧
      call.Logged (outcome, events) := by
  obtain ⟨events, hrecorded, hfailure⟩ := call.follows_perform p failure before s
  obtain ⟨events', hevents, hlogged⟩ := call.logged_perform p ⟨failure, before, s⟩
  rcases hperform : call.perform p ⟨failure, s⟩ with ⟨outcome, kept, s'⟩
  rw [hperform] at hrecorded hfailure
  rw [hrecorded] at hevents hlogged
  obtain rfl : events = events' := List.append_cancel_left hevents
  obtain rfl : kept = failure.or (firstFault events) := hfailure
  exact ⟨outcome, events, s', rfl, hrecorded, hlogged⟩

/-! ## Calls in a row

The first fault of all the events is the first fault of the events so far, if there is one, and
otherwise the first of those to come. This is how the place of the failure is written to, so the
induction is on the calls. -/

/-- The run: the events of calls in a row are those of one call after the other. Induction on the
calls; the failure that is kept is the first fault of all that were made before. -/
theorem performAll_recorded (calls : List (MeritCall α)) (p : Problem α σ)
    (failure : Option (Fault α)) (before : List (Event α)) (s : σ) :
    ∃ entries s',
      let events := entries.flatMap Prod.snd
      performAll p calls ⟨failure, s⟩
        = (entries.map Prod.fst, ⟨failure.or (firstFault events), s'⟩) ∧
      performAll p.recorded calls ⟨failure, before, s⟩
        = (entries.map Prod.fst, ⟨failure.or (firstFault events), before ++ events, s'⟩) ∧
      List.Forall₂ Logged calls entries := by
  induction calls generalizing failure before s with
  | nil => exact ⟨[], s, by simp; exact ⟨rfl, rfl⟩⟩
  | cons call calls ih =>
    obtain ⟨outcome, events, s₁, hperform, hrecorded, hlogged⟩ :=
      call.perform_recorded p failure before s
    obtain ⟨entries, s', hrest, hrest', hentries⟩ :=
      ih (failure.or (firstFault events)) (before ++ events) s₁
    refine ⟨(outcome, events) :: entries, s', ?_, ?_, .cons hlogged hentries⟩
    · rw [performAll, Eval.state_bind_apply, hperform, Eval.state_bind_apply, hrest,
        List.flatMap_cons, firstFault_append, Option.or_assoc]
      rfl
    · rw [performAll, Eval.state_bind_apply, hrecorded, Eval.state_bind_apply, hrest',
        List.flatMap_cons, firstFault_append, Option.or_assoc, List.append_assoc]
      rfl

/-- Whatever an optimizer asks, and however that depends on the answers, it makes calls in a row.
Induction on the query. -/
theorem exists_performAll (m : Merit α) (p : Problem α σ) (q : Query α β) (w : Watched α σ) :
    ∃ calls : List (MeritCall α), (∀ call ∈ calls, call.merit = m) ∧
      (performAll p calls w).2 = (q.run (m.cost p) (m.gradient p) w).2 := by
  induction q generalizing w with
  | pure result => exact ⟨[], by simp; rfl⟩
  | cost x next ih =>
    obtain ⟨calls, hcalls, hrun⟩ := ih (m.cost p x w).1 (m.cost p x w).2
    exact ⟨.cost m x :: calls, List.forall_mem_cons.mpr ⟨rfl, hcalls⟩, hrun⟩
  | gradient x next ih =>
    obtain ⟨calls, hcalls, hrun⟩ := ih (m.gradient p x w).1 (m.gradient p x w).2
    exact ⟨.gradient m x :: calls, List.forall_mem_cons.mpr ⟨rfl, hcalls⟩, hrun⟩

/-- **The first fault is kept.** Where nothing is kept before, calls of merits in any order and at
any points leave an event for every operation that they called, and what is kept in the end is the
first fault among these. Each call goes through its operations up to the first that faults, and
returns an error exactly if one does, which holds that fault. The calls of an optimizer are such a
sequence. -/
theorem performAll_keeps_firstFault (p : Problem α σ) (s : σ) :
    (∀ calls : List (MeritCall α), ∃ entries s',
      let events := entries.flatMap Prod.snd
      performAll p calls ⟨none, s⟩ = (entries.map Prod.fst, ⟨firstFault events, s'⟩) ∧
      performAll p.recorded calls ⟨none, [], s⟩
        = (entries.map Prod.fst, ⟨firstFault events, events, s'⟩) ∧
      List.Forall₂ Logged calls entries) ∧
    ∀ (m : Merit α) (q : Query α β), ∃ calls : List (MeritCall α),
      (∀ call ∈ calls, call.merit = m) ∧
      (performAll p calls ⟨none, s⟩).2 = (q.run (m.cost p) (m.gradient p) ⟨none, s⟩).2 := by
  refine ⟨fun calls ↦ ?_, fun m q ↦ exists_performAll m p q _⟩
  obtain ⟨entries, s', hrun, hrecorded, hentries⟩ := performAll_recorded calls p none [] s
  rw [Option.none_or] at hrun hrecorded
  exact ⟨entries, s', hrun, hrecorded, hentries⟩

/-- A problem with one row, which has neither a value nor rows. -/
def unready : Problem Float Unit where
  objective _ := throw (.evaluation "no value")
  gradient _ := pure [1.0]
  constraints _ := throw (.evaluation "no rows")
  jacobian _ := pure ⟨1, [[1.0]]⟩
  intermediate _ := pure true
  note _ := pure ()

/-- Of two calls that fail for different reasons the first one is kept. -/
example :
    let m : Merit Float := ⟨.ofBounds 1 ⟨none, none, [0.0], [0.0]⟩, [0.0], 1.0⟩
    let w : Watched Float Unit := ⟨none, ()⟩
    ((gradient m [0.0]).perform unready w).2.failure = some (.evaluation "no rows") ∧
      (performAll unready [.cost m [0.0], .gradient m [0.0]] w).2.failure
        = some (.evaluation "no value") := by
  decide +kernel

end MeritCall

end NonlinearProgram
