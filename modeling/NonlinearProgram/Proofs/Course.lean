import NonlinearProgram.Lagrangian.Run
import NonlinearProgram.Proofs.Sequence

/-!
# The course of a run

A run that ends without fault is a start, a number of iterations and a finish. `Iteration.Performed`
is what the problem was asked in one iteration and how the record of it was made from the answers;
`Course` says that iterations followed one another, each where the one before had left off.

`MultiplierMethod.run_eq_ok` takes such a run apart: there is a course from the start, no iteration
before its last one came to a verdict, and the last one did unless the limit was reached.

## Representation

The states of the problem are part of the course, since a problem may answer differently in each of
them. Nothing is assumed of the optimizer: an iteration has for its descent whatever
`MultiplierMethod.descend` made of it.
-/

namespace NonlinearProgram

namespace MultiplierMethod

variable {α σ : Type} [Scalar α] {minimizer : Minimizer α} {p : Problem α σ} {c : Config α}
  {l : Layout α}

/-! ## The steps of a run

One equation for each way in which a descent or a history goes on. Everything later about runs is
derived from these, and none of it looks into the definitions again. -/

/-- A descent whose tolerances were taken, as a match on the failure that was kept. -/
theorem descend_of_search {search : Point α → Query α (Except (Breakdown α) (Descent α))}
    (hsearch : minimizer (stopping c) = .ok search) (merit : Merit α) (x : Point α) (s : σ) :
    descend minimizer p c merit x s =
      let (outcome, w) := (search x).run (merit.cost p) (merit.gradient p) ⟨none, s⟩
      match w.failure with
      | some fault => (.error fault, w.problem)
      | none => (.ok (conclude p x outcome w.problem).1, (conclude p x outcome w.problem).2) := by
  rw [descend, hsearch]
  rfl

variable {index : Nat} {start : Iterate α} {i : Iteration α} {s s₁ : σ}

theorem history_zero (minimizer : Minimizer α) (p : Problem α σ) (c : Config α) (l : Layout α)
    (index : Nat) (start : Iterate α) (s : σ) :
    history minimizer p c l 0 index start s = (⟨[], none⟩, s) := rfl

theorem history_of_fault {fault : Fault α}
    (h : iterate minimizer p c l index start s = (.error fault, s₁)) (fuel : Nat) :
    history minimizer p c l (fuel + 1) index start s = (⟨[], some fault⟩, s₁) := by
  rw [history, Eval.state_bind_apply, ExceptT.run, h]
  rfl

theorem history_of_verdict {verdict : Termination}
    (h : iterate minimizer p c l index start s = (.ok i, s₁)) (hi : i.verdict? c = some verdict)
    (fuel : Nat) :
    history minimizer p c l (fuel + 1) index start s = (⟨[i], none⟩, s₁) := by
  rw [history, Eval.state_bind_apply, ExceptT.run, h]
  simp only [hi]
  rfl

theorem history_of_none (h : iterate minimizer p c l index start s = (.ok i, s₁))
    (hi : i.verdict? c = none) (fuel : Nat) :
    history minimizer p c l (fuel + 1) index start s =
      let (rest, s₂) := history minimizer p c l fuel (index + 1) (i.next c) s₁
      (⟨i :: rest.iterations, rest.fault⟩, s₂) := by
  rw [history, Eval.state_bind_apply, ExceptT.run, h]
  simp only [hi]
  rfl

end MultiplierMethod

open MultiplierMethod

variable {α σ : Type} [Scalar α]

/-! ## One iteration -/

/-- The iteration was performed from one state of the problem to another. -/
structure Iteration.Performed (minimizer : Minimizer α) (p : Problem α σ) (c : Config α)
    (l : Layout α) (i : Iteration α) (s s' : σ) : Prop where
  asked : ∃ s₁ s₂ s₃ s₄,
    descend minimizer p c ⟨l, i.start.lambda, i.start.rho⟩ i.start.point s = (.ok i.inner, s₁) ∧
    l.rows p i.inner.point s₁ = (.ok i.rows, s₂) ∧
    p.objective i.inner.point s₂ = (.ok i.objective, s₃) ∧
    progress c p (.iterated i.index i.objective i.violation i.inner.gradient i.start.rho i.step) s₃
      = (.ok (), s₄) ∧
    p.intermediate
        (Iteration.report i.index i.start.rho i.objective i.violation i.step i.inner) s₄
      = (i.agreed, s')
  violation_eq : i.violation = l.violation (l.values i.inner.point i.rows)
  lambda_eq :
    i.lambda = l.updateMultipliers i.start.lambda (l.values i.inner.point i.rows) i.start.rho
  step_eq : i.step = (i.inner.point.sub i.start.point).maxNorm

/-- Iterations that followed one another, with the number and the start of the first one. -/
inductive Course (minimizer : Minimizer α) (p : Problem α σ) (c : Config α) (l : Layout α) :
    Nat → Iterate α → σ → List (Iteration α) → σ → Prop
  | done (index : Nat) (start : Iterate α) (s : σ) : Course minimizer p c l index start s [] s
  | step {i : Iteration α} {its : List (Iteration α)} {s s₁ s₂ : σ}
      (performed : i.Performed minimizer p c l s s₁)
      (rest : Course minimizer p c l (i.index + 1) (i.next c) s₁ its s₂) :
      Course minimizer p c l i.index i.start s (i :: its) s₂

theorem Course.performed {minimizer : Minimizer α} {p : Problem α σ} {c : Config α} {l : Layout α}
    {index : Nat} {start : Iterate α} {its : List (Iteration α)} {s s' : σ}
    (h : Course minimizer p c l index start s its s') :
    ∀ i ∈ its, ∃ s₁ s₂, i.Performed minimizer p c l s₁ s₂ := by
  induction h with
  | done => exact fun _ hi ↦ absurd hi List.not_mem_nil
  | step performed _ ih => exact List.forall_mem_cons.mpr ⟨⟨_, _, performed⟩, ih⟩

namespace MultiplierMethod

variable {minimizer : Minimizer α} {p : Problem α σ} {c : Config α} {l : Layout α}
  {start : Iterate α} {s s' : σ}

theorem iterate_eq_ok {index : Nat} {i : Iteration α} :
    iterate minimizer p c l index start s = (.ok i, s') ↔
      i.index = index ∧ i.start = start ∧ i.Performed minimizer p c l s s' := by
  constructor
  · intro h
    obtain ⟨inner, s₁, hinner, h⟩ := Eval.bind_eq_ok.mp h
    obtain ⟨rows, s₂, hrows, h⟩ := Eval.bind_eq_ok.mp h
    obtain ⟨objective, s₃, hobjective, h⟩ := Eval.bind_eq_ok.mp h
    obtain ⟨⟨⟩, s₄, hprogress, h⟩ := Eval.bind_eq_ok.mp h
    obtain ⟨agreed, s₅, hagreed, h⟩ := Eval.bind_eq_ok.mp h
    rw [Eval.lift_apply, Prod.mk.injEq, Except.ok.injEq] at hagreed
    obtain ⟨rfl, rfl⟩ := hagreed
    rw [Eval.pure_apply, Prod.mk.injEq, Except.ok.injEq] at h
    obtain ⟨rfl, rfl⟩ := h
    exact ⟨rfl, rfl, ⟨s₁, s₂, s₃, s₄, hinner, hrows, hobjective, hprogress, rfl⟩, rfl, rfl, rfl⟩
  · rintro ⟨rfl, rfl, ⟨s₁, s₂, s₃, s₄, hinner, hrows, hobjective, hprogress, hagreed⟩, hviolation,
      hlambda, hstep⟩
    rw [hviolation, hstep] at hprogress hagreed
    refine Eval.bind_eq_ok.mpr ⟨_, s₁, hinner, Eval.bind_eq_ok.mpr ⟨_, s₂, hrows,
      Eval.bind_eq_ok.mpr ⟨_, s₃, hobjective, Eval.bind_eq_ok.mpr ⟨_, s₄, hprogress,
      Eval.bind_eq_ok.mpr ⟨i.agreed, s', ?_, ?_⟩⟩⟩⟩⟩
    · rw [Eval.lift_apply, hagreed]
    · rw [Eval.pure_apply, ← hviolation, ← hlambda, ← hstep]

end MultiplierMethod

/-! ## All iterations

A history of iterations is made from its front, while what is said of it is about its end: the last
iteration is the only one that may have a verdict. `History.Settled` is the form of this that a
longer history inherits from a shorter one, so that one induction gives both the course and the
end. -/

/-- A history without fault that had room for a number of iterations: no verdict before the last
one, and one there unless there was no room for more. -/
structure History.Settled (c : Config α) (fuel : Nat) (h : History α) : Prop where
  fault_eq : h.fault = none
  length_le : h.iterations.length ≤ fuel
  before : ∀ i ∈ h.iterations.dropLast, i.verdict? c = none
  last : h.iterations.length < fuel →
    ∃ i t, h.iterations.getLast? = some i ∧ i.verdict? c = some t

namespace History.Settled

variable {c : Config α} {fuel : Nat} {i : Iteration α}

theorem nil (c : Config α) : History.Settled c 0 ⟨[], none⟩ :=
  ⟨rfl, Nat.le_refl _, fun _ h ↦ absurd h List.not_mem_nil, fun h ↦ absurd h (Nat.not_lt_zero _)⟩

theorem singleton {t : Termination} (h : i.verdict? c = some t) :
    History.Settled c (fuel + 1) ⟨[i], none⟩ :=
  ⟨rfl, Nat.succ_le_succ (Nat.zero_le _), fun _ h ↦ absurd h List.not_mem_nil,
    fun _ ↦ ⟨i, t, rfl, h⟩⟩

/-- An iteration without verdict before a settled history. If nothing follows, then there was no
room. -/
theorem cons {h : History α} (hi : i.verdict? c = none) (hh : h.Settled c fuel) :
    History.Settled c (fuel + 1) ⟨i :: h.iterations, h.fault⟩ := by
  obtain ⟨hfault, hlength, hbefore, hlast⟩ := hh
  rcases hits : h.iterations with _ | ⟨j, its⟩
  · -- with room for more the history would have had a last iteration
    rw [hits] at hlast
    rcases fuel with _ | fuel
    · exact ⟨hfault, Nat.le_refl _, fun _ h ↦ absurd h List.not_mem_nil,
        fun h ↦ absurd h (Nat.lt_irrefl _)⟩
    · obtain ⟨k, t, hk, -⟩ := hlast (Nat.succ_pos _)
      cases hk
  · rw [hits] at hlength hbefore hlast
    refine ⟨hfault, Nat.succ_le_succ hlength, ?_, ?_⟩
    · rw [List.dropLast_cons_cons]
      exact List.forall_mem_cons.mpr ⟨hi, hbefore⟩
    · rw [List.getLast?_cons_cons]
      exact fun h ↦ hlast (Nat.lt_of_succ_lt_succ h)

end History.Settled

namespace MultiplierMethod

variable {minimizer : Minimizer α} {p : Problem α σ} {c : Config α} {l : Layout α} {s s' : σ}

/-- Induction on the room; the course and the settled history grow at the front together. -/
theorem course_of_history {fuel index : Nat} {start : Iterate α} {h : History α}
    (hhistory : history minimizer p c l fuel index start s = (h, s')) (hfault : h.fault = none) :
    Course minimizer p c l index start s h.iterations s' ∧ h.Settled c fuel := by
  induction fuel generalizing index start s h with
  | zero =>
    rw [history_zero, Prod.mk.injEq] at hhistory
    obtain ⟨rfl, rfl⟩ := hhistory
    exact ⟨.done _ _ _, .nil c⟩
  | succ fuel ih =>
    rcases hiterate : iterate minimizer p c l index start s with ⟨fault | i, s₁⟩
    · rw [history_of_fault hiterate, Prod.mk.injEq] at hhistory
      obtain ⟨rfl, -⟩ := hhistory
      cases hfault
    obtain ⟨rfl, rfl, hperformed⟩ := iterate_eq_ok.mp hiterate
    rcases hverdict : i.verdict? c with _ | t
    · rw [history_of_none hiterate hverdict] at hhistory
      rcases hrest : history minimizer p c l fuel (i.index + 1) (i.next c) s₁ with ⟨rest, s₂⟩
      rw [hrest, Prod.mk.injEq] at hhistory
      obtain ⟨rfl, rfl⟩ := hhistory
      obtain ⟨hcourse, hsettled⟩ := ih hrest hfault
      exact ⟨.step hperformed hcourse, .cons hverdict hsettled⟩
    · rw [history_of_verdict hiterate hverdict, Prod.mk.injEq] at hhistory
      obtain ⟨rfl, rfl⟩ := hhistory
      exact ⟨.step hperformed (.done _ _ _), .singleton hverdict⟩

/-! ## The two ends

A start and a finish that did not fault, each as what was asked in its order and what was made of
the answers. Only the start knows the point that was asked for, and only the finish splits the
multipliers. -/

theorem start_eq_ok {x : Point α} {first : Iterate α} :
    start p c l x s = (.ok first, s') ↔ ∃ rows s₁, l.rows p (l.project x) s = (.ok rows, s₁) ∧
      progress c p (.started l.n l.m l.size c.penalty) s₁ = (.ok (), s') ∧
      first = ⟨l.project x, Point.zeros l.size, c.penalty,
        l.violation (l.values (l.project x) rows), Scalar.infinity⟩ := by
  constructor
  · intro h
    obtain ⟨rows, s₁, hrows, h⟩ := Eval.bind_eq_ok.mp h
    obtain ⟨⟨⟩, s₂, hprogress, h⟩ := Eval.bind_eq_ok.mp h
    rw [Eval.pure_apply, Prod.mk.injEq, Except.ok.injEq] at h
    obtain ⟨rfl, rfl⟩ := h
    exact ⟨rows, s₁, hrows, hprogress, rfl⟩
  · rintro ⟨rows, s₁, hrows, hprogress, rfl⟩
    exact Eval.bind_eq_ok.mpr ⟨rows, s₁, hrows, Eval.bind_eq_ok.mpr ⟨(), s', hprogress, rfl⟩⟩

theorem finish_eq_ok {last : Iterate α} {t : Termination} {y : Point α} {info : Summary α} :
    finish p c l last t s = (.ok (y, info), s') ↔
      y = l.project last.point ∧ ∃ objective s₁ rows s₂, p.objective y s = (.ok objective, s₁) ∧
        l.rows p y s₁ = (.ok rows, s₂) ∧ progress c p (.ended t objective) s₂ = (.ok (), s') ∧
        info = ⟨t.status, t.message, objective, y, rows, (l.splitMultipliers last.lambda).rows,
          (l.splitMultipliers last.lambda).lower, (l.splitMultipliers last.lambda).upper⟩ := by
  constructor
  · intro h
    obtain ⟨objective, s₁, hobjective, h⟩ := Eval.bind_eq_ok.mp h
    obtain ⟨rows, s₂, hrows, h⟩ := Eval.bind_eq_ok.mp h
    obtain ⟨⟨⟩, s₃, hprogress, h⟩ := Eval.bind_eq_ok.mp h
    rw [Eval.pure_apply, Prod.mk.injEq, Except.ok.injEq, Prod.mk.injEq] at h
    obtain ⟨⟨rfl, rfl⟩, rfl⟩ := h
    exact ⟨rfl, objective, s₁, rows, s₂, hobjective, hrows, hprogress, rfl⟩
  · rintro ⟨rfl, objective, s₁, rows, s₂, hobjective, hrows, hprogress, rfl⟩
    exact Eval.bind_eq_ok.mpr ⟨objective, s₁, hobjective,
      Eval.bind_eq_ok.mpr ⟨rows, s₂, hrows, Eval.bind_eq_ok.mpr ⟨(), s', hprogress, rfl⟩⟩⟩

/-! ## The run -/

/-- A run without fault is a start, a course that is settled at the iteration limit, and a finish at
the last iterate. -/
theorem run_eq_ok {x : Point α} {answer : Point α × Summary α}
    (h : run minimizer p c l x s = (.ok answer, s')) :
    ∃ (first : Iterate α) (s₁ : σ) (its : History α) (s₂ : σ),
      start p c l x s = (.ok first, s₁) ∧
      history minimizer p c l c.iterationLimit 1 first s₁ = (its, s₂) ∧
      Course minimizer p c l 1 first s₁ its.iterations s₂ ∧ its.Settled c c.iterationLimit ∧
      finish p c l (its.final c first) (its.termination c first) s₂ = (.ok answer, s') := by
  obtain ⟨first, s₁, hstart, h⟩ := Eval.bind_eq_ok.mp h
  obtain ⟨its, s₂, hits, h⟩ := Eval.bind_eq_ok.mp h
  rw [Eval.lift_apply, Prod.mk.injEq, Except.ok.injEq] at hits
  rcases hfault : its.fault with _ | fault
  · have hhistory : history minimizer p c l c.iterationLimit 1 first s₁ = (its, s₂) :=
      Prod.ext hits.1 hits.2
    obtain ⟨hcourse, hsettled⟩ := course_of_history hhistory hfault
    simp only [hfault] at h
    exact ⟨first, s₁, its, s₂, hstart, hhistory, hcourse, hsettled, h⟩
  · simp only [hfault, Eval.throw_apply] at h
    cases h

end MultiplierMethod

end NonlinearProgram
