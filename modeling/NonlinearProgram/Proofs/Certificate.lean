import NonlinearProgram.Proofs.Course

/-!
# What a status certifies

Four tests can end a run after an iteration, and they are made in a fixed order: the problem did not
agree to go on, the descent was stuck at a feasible point, the last step to a feasible point was
small, the penalty outgrew its limit at an infeasible one. `Iteration.Stops` says that one of them
holds, `Iteration.Certifies` which of them was reached first.

A run ends at the first iteration that stops it (`History.Settled`), or at the iteration limit. So
each status is equivalent to a condition on the iterations of the run, `History.Certificate`, and
the conditions exclude each other.

## The history of a run

A statement about the last iteration of a run says nothing unless it is known which iteration that
is. `MultiplierMethod.Completed` fixes it: the history is the one that the run computes, it is a
course from the start of the run, none of its iterations before the last one stopped it, and what
was returned was put together behind the last one. Every run without fault has such a history
(`MultiplierMethod.exists_completed`), and theorems about the end of a run are stated over it.
-/

namespace NonlinearProgram

theorem Termination.status_inj {t u : Termination} : t.status = u.status ↔ t = u := by
  cases t <;> cases u <;> decide

variable {α σ : Type} [Scalar α]

/-! ## The tests after an iteration

Each test is a proposition of its own, with what it compares, and `Iteration.verdict?_eq` says that
the verdict makes them one after the other. The order shows where several tests hold: a problem that
did not agree is reported as such whatever else holds, and a descent that was stuck at a feasible
point is reported as stuck also where the step was small. -/

namespace Iteration

variable (c : Config α) (i : Iteration α)

/-- The descent was stuck, at a feasible point. -/
def Stalled : Prop := i.inner.stuck = true ∧ i.violation ≤ c.violationTolerance

/-- The point is feasible and the step to it was small. -/
def Converged : Prop :=
  i.violation ≤ c.violationTolerance ∧
    i.step ≤ Scalar.sqrt c.tolerance * i.inner.point.magnitude

/-- The point is not feasible and the penalty has outgrown its limit. -/
def Outgrown : Prop := ¬i.violation ≤ c.violationTolerance ∧ largestPenalty < i.nextRho c

/-- One of the tests holds. -/
def Stops : Prop := i.agreed = false ∨ i.Stalled c ∨ i.Converged c ∨ i.Outgrown c

/-- The tests that hold, and that do not, where a run ends with the iteration. -/
def Certifies : Termination → Prop
  | .userStop => i.agreed = false
  | .acceptable => i.agreed = true ∧ i.Stalled c
  | .succeeded => i.agreed = true ∧ i.inner.stuck = false ∧ i.Converged c
  | .infeasible => i.agreed = true ∧ i.Outgrown c
  | .iterationLimit => False

instance : Decidable (i.Stalled c) := inferInstanceAs (Decidable (_ ∧ _))

instance : Decidable (i.Converged c) := inferInstanceAs (Decidable (_ ∧ _))

instance : Decidable (i.Outgrown c) := inferInstanceAs (Decidable (_ ∧ _))

/-- The verdict, with a test at each branch. -/
theorem verdict?_eq : i.verdict? c =
    if i.agreed = false then some .userStop
    else if i.Stalled c then some .acceptable
    else if i.Converged c then some .succeeded
    else if i.Outgrown c then some .infeasible
    else none := by
  simp only [verdict?, feasible, Stalled, Converged, Outgrown, Bool.not_eq_true',
    Bool.and_eq_true, decide_eq_true_eq, decide_eq_false_iff_not]
  congr

variable {c i}

theorem Certifies.unique {t u : Termination} (ht : i.Certifies c t) (hu : i.Certifies c u) :
    t = u := by
  cases t <;> cases u <;> simp_all [Certifies, Stalled, Converged, Outgrown]

theorem Certifies.stops {t : Termination} (h : i.Certifies c t) : i.Stops c := by
  cases t with
  | userStop => exact Or.inl h
  | acceptable => exact Or.inr (Or.inl h.2)
  | succeeded => exact Or.inr (Or.inr (Or.inl h.2.2))
  | infeasible => exact Or.inr (Or.inr (Or.inr h.2))
  | iterationLimit => exact h.elim

theorem certifies_of_verdict? {t : Termination} (h : i.verdict? c = some t) :
    i.Certifies c t := by
  rw [verdict?_eq] at h
  by_cases hagreed : i.agreed = false
  · rw [if_pos hagreed] at h
    cases h
    exact hagreed
  rw [if_neg hagreed] at h
  rw [Bool.not_eq_false] at hagreed
  by_cases hstalled : i.Stalled c
  · rw [if_pos hstalled] at h
    cases h
    exact ⟨hagreed, hstalled⟩
  rw [if_neg hstalled] at h
  by_cases hconverged : i.Converged c
  · rw [if_pos hconverged] at h
    cases h
    -- a descent that was stuck at this point would have stalled
    have hstuck : i.inner.stuck ≠ true := fun hstuck ↦ hstalled ⟨hstuck, hconverged.1⟩
    exact ⟨hagreed, Bool.eq_false_iff.mpr hstuck, hconverged⟩
  rw [if_neg hconverged] at h
  by_cases houtgrown : i.Outgrown c
  · rw [if_pos houtgrown] at h
    cases h
    exact ⟨hagreed, houtgrown⟩
  · rw [if_neg houtgrown] at h
    cases h

theorem verdict?_eq_none : i.verdict? c = none ↔ ¬i.Stops c := by
  rw [verdict?_eq, Stops]
  by_cases hagreed : i.agreed = false
  · simp only [hagreed, if_true, true_or, not_true, reduceCtorEq]
  by_cases hstalled : i.Stalled c
  · simp only [hagreed, hstalled, if_true, if_false, true_or, or_true, not_true, reduceCtorEq]
  by_cases hconverged : i.Converged c
  · simp only [hagreed, hstalled, hconverged, if_true, if_false, true_or, or_true, not_true,
      reduceCtorEq]
  by_cases houtgrown : i.Outgrown c <;>
    simp only [hagreed, hstalled, hconverged, houtgrown, if_true, if_false, or_true, or_self,
      not_true, not_false_iff, reduceCtorEq]

end Iteration

/-! ## The status of a run

A run that used up its iterations is judged once more, by the wider tolerance and at the iterate
behind its last iteration; without iterations that is the iterate at which it began. So the status
one has two certificates, and all others have one. -/

/-- The iterate would make an acceptable end. -/
def Iterate.Acceptable (c : Config α) (s : Iterate α) : Prop :=
  s.violation ≤ c.violationTolerance ∧
    s.lastStep ≤ Scalar.sqrt c.acceptableTolerance * s.point.magnitude

instance (c : Config α) (s : Iterate α) : Decidable (s.Acceptable c) :=
  inferInstanceAs (Decidable (_ ∧ _))

namespace History

/-- The history has as many iterations as it may have, and none of them stopped it. -/
structure AtLimit (c : Config α) (h : History α) : Prop where
  length_eq : h.iterations.length = c.iterationLimit
  unstopped : ∀ i ∈ h.iterations, ¬i.Stops c

/-- What the status of a run says about its history. -/
structure Certificate (c : Config α) (first : Iterate α) (h : History α) (status : Int) : Prop where
  userStop : status = 5 ↔ ∃ i, h.iterations.getLast? = some i ∧ i.agreed = false
  succeeded : status = 0 ↔ ∃ i, h.iterations.getLast? = some i ∧ i.agreed = true ∧
    i.inner.stuck = false ∧ i.Converged c
  infeasible : status = 2 ↔ ∃ i, h.iterations.getLast? = some i ∧ i.agreed = true ∧ i.Outgrown c
  acceptable : status = 1 ↔
    (∃ i, h.iterations.getLast? = some i ∧ i.agreed = true ∧ i.Stalled c) ∨
      h.AtLimit c ∧ (h.final c first).Acceptable c
  iterationLimit : status = -1 ↔ h.AtLimit c ∧ ¬(h.final c first).Acceptable c

variable {c : Config α} {first : Iterate α} {h : History α}

theorem limitVerdict_eq (c : Config α) (s : Iterate α) :
    limitVerdict c s = if s.Acceptable c then .acceptable else .iterationLimit := rfl

theorem limitVerdict_eq_acceptable {s : Iterate α} :
    limitVerdict c s = .acceptable ↔ s.Acceptable c := by
  rw [limitVerdict_eq]
  by_cases hs : s.Acceptable c
  · rw [if_pos hs]
    exact iff_of_true rfl hs
  · rw [if_neg hs]
    exact iff_of_false Termination.noConfusion hs

theorem limitVerdict_eq_iterationLimit {s : Iterate α} :
    limitVerdict c s = .iterationLimit ↔ ¬s.Acceptable c := by
  rw [limitVerdict_eq]
  by_cases hs : s.Acceptable c
  · rw [if_pos hs]
    exact iff_of_false Termination.noConfusion (not_not_intro hs)
  · rw [if_neg hs]
    exact iff_of_true rfl hs

theorem Settled.atLimit (hh : h.Settled c c.iterationLimit)
    (hnone : h.iterations.getLast?.bind (Iteration.verdict? c) = none) : h.AtLimit c := by
  constructor
  · refine Nat.le_antisymm hh.length_le (Nat.not_lt.mp fun hlt ↦ ?_)
    obtain ⟨i, t, hi, ht⟩ := hh.last hlt
    rw [hi, Option.bind_some, ht] at hnone
    cases hnone
  · intro i hi
    rcases hlast : h.iterations.getLast? with _ | j
    · rw [List.getLast?_eq_none_iff.mp hlast] at hi
      exact absurd hi List.not_mem_nil
    · -- the last iteration has no verdict by assumption, and those before it never have one
      rw [hlast, Option.bind_some] at hnone
      obtain ⟨its, hits⟩ := List.getLast?_eq_some_iff.mp hlast
      have hbefore := hh.before
      rw [hits, List.dropLast_concat] at hbefore
      rw [hits, List.mem_append, List.mem_singleton] at hi
      rcases hi with hi | rfl
      · exact Iteration.verdict?_eq_none.mp (hbefore i hi)
      · exact Iteration.verdict?_eq_none.mp hnone

/-- How a settled history ends: as its last iteration certifies, or at the limit. -/
theorem Settled.termination_eq (hh : h.Settled c c.iterationLimit) {t : Termination} :
    h.termination c first = t ↔
      (∃ i, h.iterations.getLast? = some i ∧ i.Certifies c t) ∨
        h.AtLimit c ∧ limitVerdict c (h.final c first) = t := by
  rw [termination]
  rcases hverdict : h.iterations.getLast?.bind (Iteration.verdict? c) with _ | u
  · have hlimit : h.AtLimit c := hh.atLimit hverdict
    constructor
    · exact fun ht ↦ Or.inr ⟨hlimit, ht⟩
    · rintro (⟨i, hi, ht⟩ | ⟨-, ht⟩)
      · exact absurd ht.stops (hlimit.unstopped i (List.mem_of_getLast? hi))
      · exact ht
  · obtain ⟨i, hi, hu⟩ := Option.bind_eq_some_iff.mp hverdict
    have hcertifies : i.Certifies c u := Iteration.certifies_of_verdict? hu
    constructor
    · rintro rfl
      exact Or.inl ⟨i, hi, hcertifies⟩
    · rintro (⟨j, hj, ht⟩ | ⟨hlimit, -⟩)
      · rw [hi, Option.some.injEq] at hj
        subst hj
        exact hcertifies.unique ht
      · exact absurd hcertifies.stops (hlimit.unstopped i (List.mem_of_getLast? hi))

/-- The status of a settled history certifies what it says. -/
theorem Settled.certificate (hh : h.Settled c c.iterationLimit) (first : Iterate α) :
    h.Certificate c first (h.termination c first).status := by
  have hstatus : ∀ t : Termination, (h.termination c first).status = t.status ↔
      (∃ i, h.iterations.getLast? = some i ∧ i.Certifies c t) ∨
        h.AtLimit c ∧ limitVerdict c (h.final c first) = t :=
    fun t ↦ Termination.status_inj.trans hh.termination_eq
  have hnever : ∀ t : Termination, t ≠ .acceptable → t ≠ .iterationLimit →
      ¬(h.AtLimit c ∧ limitVerdict c (h.final c first) = t) := by
    rintro t hacceptable hlimit ⟨-, rfl⟩
    by_cases hs : (h.final c first).Acceptable c
    · exact hacceptable (limitVerdict_eq_acceptable.mpr hs)
    · exact hlimit (limitVerdict_eq_iterationLimit.mpr hs)
  constructor
  · exact (hstatus .userStop).trans (or_iff_left (hnever _ (by decide) (by decide)))
  · exact (hstatus .succeeded).trans (or_iff_left (hnever _ (by decide) (by decide)))
  · exact (hstatus .infeasible).trans (or_iff_left (hnever _ (by decide) (by decide)))
  · exact (hstatus .acceptable).trans
      (or_congr_right (and_congr_right fun _ ↦ limitVerdict_eq_acceptable))
  · refine (hstatus .iterationLimit).trans ((or_iff_right ?_).trans
      (and_congr_right fun _ ↦ limitVerdict_eq_iterationLimit))
    rintro ⟨i, -, hi⟩
    exact hi

end History

namespace MultiplierMethod

variable {minimizer : Minimizer α} {p : Problem α σ} {c : Config α} {l : Layout α} {s s' : σ}

/-! ## Runs without fault -/

/-- What a run without fault went through, from the iterate at which it began to what it returned.
The history is the one that the run computes, so that its last iteration is the last one of the
run. -/
structure Completed (minimizer : Minimizer α) (p : Problem α σ) (c : Config α) (l : Layout α)
    (x : Point α) (s : σ) (first : Iterate α) (its : History α) (y : Point α) (info : Summary α)
    (s' : σ) : Prop where
  ran : ∃ s₁ s₂, start p c l x s = (.ok first, s₁) ∧
    history minimizer p c l c.iterationLimit 1 first s₁ = (its, s₂) ∧
    Course minimizer p c l 1 first s₁ its.iterations s₂ ∧
    finish p c l (its.final c first) (its.termination c first) s₂ = (.ok (y, info), s')
  length_le : its.iterations.length ≤ c.iterationLimit
  unstopped : ∀ i ∈ its.iterations.dropLast, ¬i.Stops c
  certificate : its.Certificate c first info.status

theorem exists_completed {x y : Point α} {info : Summary α}
    (h : run minimizer p c l x s = (.ok (y, info), s')) :
    ∃ first its, Completed minimizer p c l x s first its y info s' := by
  obtain ⟨first, s₁, its, s₂, hstart, hhistory, hcourse, hsettled, hfinish⟩ := run_eq_ok h
  obtain ⟨-, _, _, _, _, -, -, -, hinfo⟩ := finish_eq_ok.mp hfinish
  have hbefore : ∀ i ∈ its.iterations.dropLast, ¬i.Stops c := fun i hi ↦
    Iteration.verdict?_eq_none.mp (hsettled.before i hi)
  have hcertificate : its.Certificate c first info.status := by
    rw [hinfo]
    exact hsettled.certificate first
  exact ⟨first, its, ⟨s₁, s₂, hstart, hhistory, hcourse, hfinish⟩, hsettled.length_le, hbefore,
    hcertificate⟩

/-- The parabola with its least value at one. -/
def parabola : Problem Float Unit where
  objective x := pure (Scalar.square (x.coord 0 - 1.0))
  gradient x := pure [2.0 * (x.coord 0 - 1.0)]
  constraints _ := pure []
  jacobian _ := pure ⟨1, []⟩
  intermediate _ := pure true
  note _ := pure ()

end MultiplierMethod

end NonlinearProgram
