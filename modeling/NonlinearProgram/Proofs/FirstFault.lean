import NonlinearProgram.Proofs.FloatOrder
import NonlinearProgram.Proofs.Recorded
import NonlinearProgram.Proofs.Course

/-!
# The first fault decides a run

A run faults exactly if some call of the problem did, and then with the fault of the first such
call, as it was. What an optimizer does with a failed evaluation has no part in it: it may stop, go
on, report a breakdown or report success. Nor does the optimizer itself contribute a fault, since
the tolerances that it is given are never negative, not even where the configured one is negative or
undefined.

The proof walks along the run on the recorded problem. Outside the descents a fault is handed on at
once, so that `Recorded.Follows` passes through every sequence; inside, where it need not be, the
failure that is kept carries the first fault (`Watched.follows_run`), and `follows_descend` is where
the two meet.
-/

namespace NonlinearProgram

variable {α σ : Type}

/-! ## Outside the descents

Each part of a run is a sequence of calls of the problem, and what lies between the calls cannot
fault. So each of these follows from the calls that it makes. -/

namespace Layout

theorem follows_rows (l : Layout α) (p : Problem α σ) (x : Point α) :
    Recorded.FollowsEval (l.rows p x) (l.rows p.recorded x) := by
  rw [rows, rows]
  split
  · exact Recorded.follows_pure _
  · exact Recorded.follows_call _ _ _

theorem follows_slopes [Scalar α] (l : Layout α) (p : Problem α σ) (x : Point α) :
    Recorded.FollowsEval (l.slopes p x) (l.slopes p.recorded x) := by
  rw [slopes, slopes]
  split
  · exact Recorded.follows_pure _
  · exact Recorded.follows_call _ _ _

end Layout

theorem MultiplierMethod.follows_progress (c : Config α) (p : Problem α σ) (remark : Remark α) :
    Recorded.FollowsEval (progress c p remark) (progress c p.recorded remark) := by
  rw [progress, progress]
  split
  · exact (Recorded.follows_note p remark).lift
  · exact Recorded.follows_pure _

variable [Scalar α]

namespace Merit

theorem follows_cost (m : Merit α) (p : Problem α σ) (x : Point α) :
    Watched.Follows (m.cost p x) (m.cost p.recorded x) := by
  refine Watched.Follows.bindEval (Watched.follows_watch (Recorded.follows_call _ _ _)) fun f ↦ ?_
  refine Watched.Follows.bindEval (Watched.follows_watch (m.layout.follows_rows p x)) fun rows ↦ ?_
  exact Watched.follows_pure _

theorem follows_gradient (m : Merit α) (p : Problem α σ) (x : Point α) :
    Watched.Follows (m.gradient p x) (m.gradient p.recorded x) := by
  refine Watched.Follows.bindEval (Watched.follows_watch (Recorded.follows_call _ _ _)) fun g ↦ ?_
  refine Watched.Follows.bindEval (Watched.follows_watch (m.layout.follows_rows p x)) fun rows ↦ ?_
  refine Watched.Follows.bindEval (Watched.follows_watch (m.layout.follows_slopes p x)) fun J ↦ ?_
  exact Watched.follows_pure _

end Merit

namespace MultiplierMethod

theorem follows_conclude (p : Problem α σ) (x : Point α)
    (outcome : Except (Breakdown α) (Descent α)) :
    Recorded.Follows (fun _ ↦ none) (conclude p x outcome) (conclude p.recorded x outcome) := by
  intro before s
  refine ⟨[], ?_, rfl⟩
  rw [List.append_nil]
  rcases outcome with cause | d
  · rfl
  · rcases hd : d.stuck with _ | cause <;> simp only [conclude, hd] <;> rfl

/-! ## Descents

An optimizer is handed evaluations that fail without saying why, and it makes of a failure what it
likes. The failure itself is kept beside the state, and it is looked at when the optimizer is done,
before its own report. -/

section Descent

variable {minimizer : Minimizer α} {c : Config α}
  {search : Point α → Query α (Except (Breakdown α) (Descent α))}

/-- A descent whose tolerances were taken faults with the first fault of its evaluations, if there
is one, and with nothing else. -/
theorem follows_descend (hsearch : minimizer (stopping c) = .ok search) (p : Problem α σ)
    (merit : Merit α) (x : Point α) :
    Recorded.FollowsEval (descend minimizer p c merit x)
      (descend minimizer p.recorded c merit x) := by
  intro before s
  obtain ⟨events, hrun, hfailure⟩ :=
    Watched.follows_run (merit.follows_cost p) (merit.follows_gradient p) (search x) none before s
  rw [descend_of_search hsearch, descend_of_search hsearch, hrun]
  rcases hran : (search x).run (merit.cost p) (merit.gradient p) ⟨none, s⟩
    with ⟨outcome, failure, s₁⟩
  rw [hran, Option.none_or] at hfailure
  -- without a failure that was kept, no evaluation faulted, and what concludes only keeps remarks
  rcases failure with _ | fault
  · obtain ⟨more, hconclude, hmore⟩ := follows_conclude p x outcome (before ++ events) s₁
    refine ⟨events ++ more, ?_, ?_⟩
    · simp only
      rw [hconclude, List.append_assoc]
    · rw [firstFault_append, ← hfailure, ← hmore]
      rfl
  · exact ⟨events, rfl, hfailure⟩

end Descent

/-! ## Runs

A history is followed by induction on the iterations that are left. An iteration that answered has
added no fault to the record, so the first fault of what comes behind it is the first one of all. -/

section Run

variable {minimizer : Minimizer α} {c : Config α}
  {search : Point α → Query α (Except (Breakdown α) (Descent α))}

theorem follows_start (p : Problem α σ) (c : Config α) (l : Layout α) (x : Point α) :
    Recorded.FollowsEval (start p c l x) (start p.recorded c l x) := by
  refine Recorded.FollowsEval.bind (l.follows_rows p _) fun rows ↦ ?_
  refine Recorded.FollowsEval.bind (follows_progress c p _) fun _ ↦ ?_
  exact Recorded.follows_pure _

theorem follows_iterate (hsearch : minimizer (stopping c) = .ok search) (p : Problem α σ)
    (l : Layout α) (index : Nat) (s : Iterate α) :
    Recorded.FollowsEval (iterate minimizer p c l index s)
      (iterate minimizer p.recorded c l index s) := by
  refine Recorded.FollowsEval.bind (follows_descend hsearch p _ _) fun inner ↦ ?_
  refine Recorded.FollowsEval.bind (l.follows_rows p _) fun rows ↦ ?_
  refine Recorded.FollowsEval.bind (Recorded.follows_call _ _ _) fun objective ↦ ?_
  refine Recorded.FollowsEval.bind (follows_progress c p _) fun _ ↦ ?_
  refine Recorded.FollowsEval.bind (Recorded.follows_intermediate p _).lift fun agreed ↦ ?_
  exact Recorded.follows_pure _

theorem follows_finish (p : Problem α σ) (c : Config α) (l : Layout α) (s : Iterate α)
    (t : Termination) : Recorded.FollowsEval (finish p c l s t) (finish p.recorded c l s t) := by
  refine Recorded.FollowsEval.bind (Recorded.follows_call _ _ _) fun objective ↦ ?_
  refine Recorded.FollowsEval.bind (l.follows_rows p _) fun rows ↦ ?_
  refine Recorded.FollowsEval.bind (follows_progress c p _) fun _ ↦ ?_
  exact Recorded.follows_pure _

theorem follows_history (hsearch : minimizer (stopping c) = .ok search) (p : Problem α σ)
    (l : Layout α) (fuel index : Nat) (s : Iterate α) :
    Recorded.Follows History.fault (history minimizer p c l fuel index s)
      (history minimizer p.recorded c l fuel index s) := by
  induction fuel generalizing index s with
  | zero =>
    intro before st
    exact ⟨[], by rw [history_zero, history_zero, List.append_nil], rfl⟩
  | succ fuel ih =>
    intro before st
    obtain ⟨events, hiterate', hfault⟩ := follows_iterate hsearch p l index s before st
    rcases hiterate : iterate minimizer p c l index s st with ⟨fault | i, st₁⟩
    · rw [hiterate] at hiterate' hfault
      refine ⟨events, ?_, ?_⟩
      · rw [history_of_fault hiterate, history_of_fault hiterate']
      · rw [history_of_fault hiterate]
        exact hfault
    · rw [hiterate] at hiterate' hfault
      -- the events of the rest follow those of the iteration, none of which is a fault
      rcases hverdict : i.verdict? c with _ | verdict
      · obtain ⟨more, hrest, hmore⟩ := ih (index + 1) (i.next c) (before ++ events) st₁
        refine ⟨events ++ more, ?_, ?_⟩
        · rw [history_of_none hiterate hverdict, history_of_none hiterate' hverdict, hrest,
            List.append_assoc]
          rfl
        · rw [history_of_none hiterate hverdict, firstFault_append, ← hfault, ← hmore]
          rfl
      · refine ⟨events, ?_, ?_⟩
        · rw [history_of_verdict hiterate hverdict, history_of_verdict hiterate' hverdict]
        · rw [history_of_verdict hiterate hverdict]
          exact hfault

theorem follows_run (hsearch : minimizer (stopping c) = .ok search) (p : Problem α σ)
    (l : Layout α) (x : Point α) :
    Recorded.FollowsEval (run minimizer p c l x) (run minimizer p.recorded c l x) := by
  refine Recorded.FollowsEval.bind (follows_start p c l x) fun s ↦ ?_
  refine Recorded.Follows.lift_bind (follows_history hsearch p l _ 1 s) ?_ ?_
  · intro h fault hfault
    simp only [hfault, and_self]
  · intro h hfault
    simp only [hfault]
    exact follows_finish p c l _ _

end Run

/-! ## On floating-point numbers -/

/-- The tolerances that a descent is given are never negative, whatever the configuration holds. -/
theorem stopping_nonneg (c : Config Float) :
    ¬(stopping c).gradient < 0.0 ∧ ¬(stopping c).cost < 0.0 :=
  ⟨FloatOrder.not_max_lt_zero (by decide) (by decide) _,
    FloatOrder.not_max_lt_zero (by decide) (by decide) _⟩

/-- An optimizer takes tolerances that are not negative. -/
def TakesNonnegative (minimizer : Minimizer Float) : Prop :=
  ∀ stop : Stopping Float, ¬stop.gradient < 0.0 → ¬stop.cost < 0.0 →
    ∃ search, minimizer stop = .ok search

/-- **The first fault decides.** What passes between a run and the problem is the record that a run
on the recorded problem leaves; the run faults exactly if some call on record did, and with the
fault of the first one. -/
theorem run_eq_error_iff_firstFault {σ : Type} {minimizer : Minimizer Float}
    (hminimizer : TakesNonnegative minimizer) (p : Problem Float σ) (c : Config Float)
    (l : Layout Float) (x : Point Float) (s : σ) :
    ∃ events, run minimizer p.recorded c l x ⟨[], s⟩
        = ((run minimizer p c l x s).1, ⟨events, (run minimizer p c l x s).2⟩) ∧
      ∀ fault, (run minimizer p c l x s).1 = .error fault ↔ firstFault events = some fault := by
  obtain ⟨search, hsearch⟩ :=
    hminimizer (stopping c) (stopping_nonneg c).1 (stopping_nonneg c).2
  obtain ⟨events, hrun, hfault⟩ := follows_run hsearch p l x [] s
  refine ⟨events, hrun, fun fault ↦ ?_⟩
  rw [← hfault, Fault.ofResult?_eq_some]

/-- A parabola that has no values beyond one half, with its least value at one. -/
def fencedParabola : Problem Float Unit where
  objective x :=
    if 0.5 < x.coord 0 then throw (.evaluation "no value here")
    else pure (Scalar.square (x.coord 0 - 1.0))
  gradient x := pure [2.0 * (x.coord 0 - 1.0)]
  constraints _ := pure []
  jacobian _ := pure ⟨1, []⟩
  intermediate _ := pure true
  note _ := pure ()

theorem run_fencedParabola :
    TakesNonnegative LimitedMemory.minimizer ∧
      (run LimitedMemory.minimizer fencedParabola Config.standard
        (.ofBounds 1 ⟨none, none, [], []⟩) [0.0] ()).1 = .error (.evaluation "no value here") := by
  have htakes : TakesNonnegative LimitedMemory.minimizer := fun _ _ _ ↦ ⟨_, rfl⟩
  obtain ⟨events, hrun, hfault⟩ := run_eq_error_iff_firstFault htakes fencedParabola
    Config.standard (.ofBounds 1 ⟨none, none, [], []⟩) [0.0] ()
  refine ⟨htakes, (hfault _).mpr ?_⟩
  have hevents : events = (run LimitedMemory.minimizer fencedParabola.recorded Config.standard
      (.ofBounds 1 ⟨none, none, [], []⟩) [0.0] ⟨[], ()⟩).2.events := by rw [hrun]
  rw [hevents]
  decide +kernel

end MultiplierMethod

end NonlinearProgram
