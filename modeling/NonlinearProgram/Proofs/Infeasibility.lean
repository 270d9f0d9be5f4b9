import Mathlib.Data.List.Induction
import NonlinearProgram.Proofs.Account

/-!
# Why a run ends as infeasible

A run ends as infeasible where the penalty is beyond its limit after an iteration that came to an
infeasible point. Under the adaptive strategy an iteration raises the penalty only if its descent
was stuck or it left more than a quarter of the violation that it had found. So either the last
iteration is such a one, or the penalty was beyond its limit before it.

It can have been so only from the start: a penalty that an iteration takes beyond the limit ends the
run with that iteration. Then the limit is not tested until an iteration comes to an infeasible
point, and the first one that does so ends the run, whatever progress it made.

## Which iteration is meant

The statement is about the last iteration of the run and about no other, since an iteration that
raised the penalty can be found in many a run that ends in another way. Therefore the history is the
completed one (`MultiplierMethod.Completed`), with its finish, and the limit is compared with the
penalty after the last iteration.
-/

namespace NonlinearProgram

open MultiplierMethod

variable {α σ : Type} [Scalar α]

/-! ## The penalty after an iteration

The strategy matters only for when the penalty is raised. That it stays otherwise, and that an
iteration beyond the limit goes on only from a feasible point, is so under either strategy. -/

namespace Iteration

variable {c : Config α} {i : Iteration α}

theorem nextRho_of_not_grows (h : i.grows c = false) : i.nextRho c = i.start.rho := by
  rw [nextRho, h]
  rfl

theorem grows_iff_of_adaptive (hstrategy : c.strategy = .adaptive) :
    i.grows c = true ↔ i.agreed = true ∧ ¬i.violation ≤ c.violationTolerance ∧
      (i.inner.stuck = true ∨ 0.25 * i.start.violation < i.violation) := by
  simp only [grows, feasible, slow, hstrategy, reduceCtorEq, decide_false, Bool.or_false,
    Bool.and_eq_true, Bool.or_eq_true, Bool.not_eq_true', decide_eq_false_iff_not,
    decide_eq_true_eq, and_assoc]

theorem feasible_of_largestPenalty_lt (hi : ¬i.Stops c) (hlimit : largestPenalty < i.nextRho c) :
    i.violation ≤ c.violationTolerance := by
  by_contra hinfeasible
  exact hi (.inr (.inr (.inr ⟨hinfeasible, hlimit⟩)))

theorem nextRho_of_feasible (h : i.violation ≤ c.violationTolerance) :
    i.nextRho c = i.start.rho := by
  apply nextRho_of_not_grows
  rw [grows, feasible, decide_eq_true h, Bool.not_true, Bool.and_false, Bool.false_and]

end Iteration

/-! ## Iterations beyond the limit

An iteration that starts beyond the limit and does not end the run came to a feasible point, and
after such an iteration the penalty is what it was. -/

namespace Course

variable {minimizer : Minimizer α} {p : Problem α σ} {c : Config α} {l : Layout α} {index : ℕ}
  {start : Iterate α} {its : List (Iteration α)} {s s' : σ}

/-- If iterations that did not stop the run lead to a penalty beyond the limit, they all had it and
came to feasible points. Induction from the last iteration. -/
theorem rho_eq_of_largestPenalty_lt (h : Course minimizer p c l index start s its s')
    (hits : ∀ i ∈ its, ¬i.Stops c)
    (hlimit : Iteration.largestPenalty < (start.after c its).rho) :
    (start.after c its).rho = start.rho ∧
      ∀ i ∈ its, i.start.rho = start.rho ∧ i.nextRho c = start.rho ∧
        i.violation ≤ c.violationTolerance := by
  induction its using List.reverseRecOn generalizing s' with
  | nil => exact ⟨rfl, fun _ hi ↦ absurd hi List.not_mem_nil⟩
  | append_singleton before i ih =>
    rw [List.forall_mem_append, List.forall_mem_singleton] at hits
    obtain ⟨s₁, hbefore, hlast⟩ := append_iff.mp h
    obtain ⟨-, hstart, -⟩ := cons_iff.mp hlast
    rw [Iterate.after_concat] at hlimit ⊢
    -- beyond the limit the iteration was to a feasible point, so the penalty is that before it
    have hfeasible : i.violation ≤ c.violationTolerance :=
      Iteration.feasible_of_largestPenalty_lt hits.2 hlimit
    have hkept : i.nextRho c = (start.after c before).rho := by
      rw [Iteration.nextRho_of_feasible hfeasible, hstart]
    have hrho : (i.next c).rho = (start.after c before).rho := hkept
    rw [hrho] at hlimit ⊢
    obtain ⟨heq, hall⟩ := ih hbefore hits.1 hlimit
    refine ⟨heq, List.forall_mem_append.mpr ⟨hall, List.forall_mem_singleton.mpr ?_⟩⟩
    rw [hstart, hkept]
    exact ⟨heq, heq, hfeasible⟩

end Course

/-! ## The end of a run -/

namespace MultiplierMethod

variable {minimizer : Minimizer α} {p : Problem α σ} {c : Config α} {l : Layout α} {s s' : σ}

/-- A run whose last iteration left the penalty and ended beyond the limit had that penalty from the
start, and all iterations before the last one came to feasible points. -/
theorem Completed.rho_eq {x y : Point α} {first : Iterate α} {its : History α} {info : Summary α}
    {i : Iteration α} (h : Completed minimizer p c l x s first its y info s')
    (hlast : its.iterations.getLast? = some i) (hgrows : i.grows c = false)
    (hlimit : Iteration.largestPenalty < i.nextRho c) :
    Iteration.largestPenalty < c.penalty ∧
      (∀ j ∈ its.iterations, j.start.rho = c.penalty ∧ j.nextRho c = c.penalty) ∧
      ∀ j ∈ its.iterations.dropLast, j.violation ≤ c.violationTolerance := by
  obtain ⟨s₁, s₂, hstart, -, hcourse, -⟩ := h.ran
  obtain ⟨_, _, -, -, hfirst⟩ := start_eq_ok.mp hstart
  have hpenalty : first.rho = c.penalty := by rw [hfirst]
  have hunstopped := h.unstopped
  obtain ⟨before, hits⟩ := List.getLast?_eq_some_iff.mp hlast
  rw [hits] at hcourse hunstopped ⊢
  rw [List.dropLast_concat] at hunstopped ⊢
  -- the last iteration kept the penalty that those before it lead to
  obtain ⟨s₃, hfront, hrest⟩ := Course.append_iff.mp hcourse
  obtain ⟨-, hi, -⟩ := Course.cons_iff.mp hrest
  have hkept : i.nextRho c = i.start.rho := Iteration.nextRho_of_not_grows hgrows
  rw [hkept, hi] at hlimit
  obtain ⟨hrho, hall⟩ := hfront.rho_eq_of_largestPenalty_lt hunstopped hlimit
  rw [hrho, hpenalty] at hlimit
  rw [hpenalty] at hrho hall
  refine ⟨hlimit, ?_, fun j hj ↦ (hall j hj).2.2⟩
  rw [List.forall_mem_append, List.forall_mem_singleton, hkept, hi, hrho]
  exact ⟨fun j hj ↦ ⟨(hall j hj).1, (hall j hj).2.1⟩, rfl, rfl⟩

/-- **A run ends as infeasible for lack of progress, or because it started beyond the limit.** Under
the adaptive strategy the last iteration of its history was stuck, or left more than a quarter of
the violation that it had found, and raised the penalty; or the first penalty is beyond the limit,
every iteration had it, and the last one is the first that came to an infeasible point. -/
theorem infeasible_cause (hstrategy : c.strategy = .adaptive) {x y : Point α} {info : Summary α}
    (h : run minimizer p c l x s = (.ok (y, info), s')) (hstatus : info.status = 2) :
    ∃ (first : Iterate α) (its : History α) (i : Iteration α),
      Completed minimizer p c l x s first its y info s' ∧ its.iterations.getLast? = some i ∧
      i.agreed = true ∧ ¬i.violation ≤ c.violationTolerance ∧
      Iteration.largestPenalty < i.nextRho c ∧
      (((i.inner.stuck = true ∨ 0.25 * i.start.violation < i.violation) ∧ i.grows c = true ∧
          i.nextRho c = i.start.rho * Iteration.growth) ∨
        (Iteration.largestPenalty < c.penalty ∧
          (∀ j ∈ its.iterations, j.start.rho = c.penalty ∧ j.nextRho c = c.penalty) ∧
          ∀ j ∈ its.iterations.dropLast, j.violation ≤ c.violationTolerance)) := by
  obtain ⟨first, its, hcompleted⟩ := exists_completed h
  obtain ⟨i, hlast, hagreed, hinfeasible, hlimit⟩ :=
    hcompleted.certificate.infeasible.mp hstatus
  refine ⟨first, its, i, hcompleted, hlast, hagreed, hinfeasible, hlimit, ?_⟩
  rcases hgrows : i.grows c
  · exact .inr (hcompleted.rho_eq hlast hgrows hlimit)
  · obtain ⟨-, -, hcause⟩ := (Iteration.grows_iff_of_adaptive hstrategy).mp hgrows
    exact .inl ⟨hcause, rfl, by rw [Iteration.nextRho, hgrows, if_pos rfl]⟩

/-- The objective `x * x` with a row that is one everywhere. -/
def constantRow : Problem Float Unit where
  objective x := pure (Scalar.square (x.coord 0))
  gradient x := pure [2.0 * x.coord 0]
  constraints _ := pure [1.0]
  jacobian _ := pure ⟨1, [[0.0]]⟩
  intermediate _ := pure true
  note _ := pure ()

theorem infeasible_cause_constantRow :
    let c : Config Float := { Config.standard with strategy := .adaptive, barrier := 1e-12 }
    let l : Layout Float := .ofBounds 1 ⟨none, none, [0.0], [0.0]⟩
    ∃ (y : Point Float) (info : Summary Float) (first : Iterate Float) (its : History Float)
      (i : Iteration Float),
      run LimitedMemory.minimizer constantRow c l [0.0] () = (.ok (y, info), ()) ∧
      info.status = 2 ∧
      Completed LimitedMemory.minimizer constantRow c l [0.0] () first its y info () ∧
      its.iterations.getLast? = some i ∧ ¬i.violation ≤ c.violationTolerance ∧
      (i.inner.stuck = true ∨ 0.25 * i.start.violation < i.violation) ∧ i.grows c = true ∧
      Iteration.largestPenalty < i.nextRho c := by
  intro c l
  have hok : ((run LimitedMemory.minimizer constantRow c l [0.0] ()).1.toOption.map fun answer ↦
      answer.2.status) = some 2 := by decide +kernel
  have hpenalty : ¬Iteration.largestPenalty < c.penalty := by decide +kernel
  obtain ⟨⟨y, info⟩, hrun, hstatus⟩ := Except.map_toOption_eq_some.mp hok
  have hended : run LimitedMemory.minimizer constantRow c l [0.0] () = (.ok (y, info), ()) :=
    Prod.ext hrun rfl
  obtain ⟨first, its, i, hcompleted, hlast, -, hinfeasible, hlimit, hcause⟩ :=
    infeasible_cause rfl hended hstatus
  obtain ⟨hslow, hgrows, -⟩ := hcause.resolve_right fun h ↦ hpenalty h.1
  exact ⟨y, info, first, its, i, hended, hstatus, hcompleted, hlast, hinfeasible, hslow, hgrows,
    hlimit⟩

/-- A linear objective with a row that rises slowly. -/
def shallowRow : Problem Float Unit where
  objective x := pure (-65536.0 * x.coord 0)
  gradient _ := pure [-65536.0]
  constraints x := pure [x.coord 0 / 1048576.0]
  jacobian _ := pure ⟨1, [[1.0 / 1048576.0]]⟩
  intermediate _ := pure true
  note _ := pure ()

/-- With a barrier below the inverse of the limit the first iteration ends the run as infeasible,
although its descent was not stuck and it left a sixteenth of the violation: the penalty was not
raised. -/
theorem infeasible_despite_progress :
    ∃ c : Config Float,
      (do
        let c ← Config.standard.set "mu_strategy" (.text "adaptive")
        let c ← c.set "max_iter" (.int 1)
        c.set "mu_init" (.num 9.094947017729282e-13)) = .ok c ∧
      let l : Layout Float := .ofBounds 1 ⟨none, none, [0.0], [0.0]⟩
      ((run LimitedMemory.minimizer shallowRow c l [1048576.0] ()).1.toOption.map fun answer ↦
        answer.2.status) = some 2 ∧
      ((start shallowRow c l [1048576.0] ()).1.toOption.bind fun first ↦
        (history LimitedMemory.minimizer shallowRow c l c.iterationLimit 1 first
          ()).1.iterations.getLast?.map fun i ↦ (i.inner.stuck, i.slow, i.grows c))
        = some (false, false, false) :=
  ⟨{ Config.standard with
      strategy := .adaptive, iterationLimit := 1, barrier := 9.094947017729282e-13 },
    by decide +kernel, by decide +kernel, by decide +kernel⟩

end MultiplierMethod

end NonlinearProgram
