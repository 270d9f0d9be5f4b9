import NonlinearProgram.Descent.LimitedMemory
import NonlinearProgram.Lagrangian.Config
import NonlinearProgram.Lagrangian.Merit

/-!
# The method of multipliers

A constrained problem is solved by a sequence of unconstrained descents of its merit function, with
multipliers and penalty changed in between.

## One iteration

From the last point an optimizer descends the merit for the present multipliers and penalty. The
rows are evaluated where it ends, the multipliers are updated by the distances there, and the
problem hears of the iteration. `Iteration` records what happened, and what follows from it is
decided by functions of the record alone: `Iteration.verdict?` says whether the run ends, and
`Iteration.next` where the next iteration starts. The penalty grows only after an infeasible
iteration: always under the monotone strategy, else if the violation stayed above a quarter of the
one before or the descent was stuck.

## The run

`MultiplierMethod.history` is the list of the iterations up to the first verdict, fault or the
limit. Of the limit the method makes an acceptable end if the last point is feasible and the last
step was small enough. The point returned is moved onto the variable bounds, and the objective and
the rows reported with it are evaluated there.

Any fault of the problem ends the run, also one that the optimizer kept to itself. Nothing else
does, except tolerances that the optimizer refuses.
-/

namespace NonlinearProgram

/-- Where an iteration starts. -/
structure Iterate (α : Type) where
  point : Point α
  lambda : List α
  rho : α
  /-- The violation at the point. -/
  violation : α
  /-- The length of the last step. -/
  lastStep : α

/-- What the descent of one iteration came to. -/
structure Inner (α : Type) where
  point : Point α
  /-- The norm of the merit's gradient, where it is known. -/
  gradient : α
  iterations : Nat
  /-- Whether the descent ended for another reason than its tolerances and limit. -/
  stuck : Bool

/-- The record of one iteration. -/
structure Iteration (α : Type) where
  index : Nat
  start : Iterate α
  inner : Inner α
  /-- The rows at the new point. -/
  rows : Point α
  violation : α
  /-- The updated multipliers. -/
  lambda : List α
  step : α
  objective : α
  /-- Whether the problem agreed to go on. -/
  agreed : Bool

variable {α σ : Type} [Scalar α]

/-- The magnitude of a point to which steps are compared. -/
def Point.magnitude (x : Point α) : α := 1.0 + x.maxNorm

namespace Iteration

/-- The factor by which the penalty grows. -/
def growth : α := 10.0

/-- The largest penalty. -/
def largestPenalty : α := 1e12

/-- Whether the new point counts as feasible. -/
def feasible (c : Config α) (i : Iteration α) : Bool := i.violation ≤ c.violationTolerance

/-- Whether the violation stayed above a quarter of the one before. -/
def slow (i : Iteration α) : Bool := 0.25 * i.start.violation < i.violation

/-- Whether the penalty grows after the iteration. -/
def grows (c : Config α) (i : Iteration α) : Bool :=
  i.agreed && !i.feasible c && (i.inner.stuck || i.slow || c.strategy = .monotone)

/-- The penalty after the iteration. -/
def nextRho (c : Config α) (i : Iteration α) : α :=
  if i.grows c then i.start.rho * growth else i.start.rho

/-- How the run ends with the iteration, if it does. -/
def verdict? (c : Config α) (i : Iteration α) : Option Termination :=
  if !i.agreed then some .userStop
  else if i.inner.stuck && i.feasible c then some .acceptable
  else if i.feasible c && i.step ≤ Scalar.sqrt c.tolerance * i.inner.point.magnitude then
    some .succeeded
  else if !i.feasible c && largestPenalty < i.nextRho c then some .infeasible
  else none

/-- Where the next iteration starts. -/
def next (c : Config α) (i : Iteration α) : Iterate α :=
  ⟨i.inner.point, i.lambda, i.nextRho c, i.violation, i.step⟩

/-- What the problem hears of the iteration. -/
def report (index : Nat) (rho objective violation step : α) (inner : Inner α) : Report α where
  mode := 0
  iteration := index
  objective := objective
  violation := violation
  gradient := inner.gradient
  barrier := 1.0 / rho
  step := step
  regularization := 0.0
  dualStep := 1.0
  primalStep := 1.0
  trials := inner.iterations

end Iteration

/-- The iterations of a run, and the fault that ended it, if one did. -/
structure History (α : Type) where
  iterations : List (Iteration α)
  fault : Option (Fault α)

namespace History

/-- Where the iteration after the last one would start. -/
def final (h : History α) (c : Config α) (start : Iterate α) : Iterate α :=
  match h.iterations.getLast? with
  | some i => i.next c
  | none => start

/-- How a run ends at the iteration limit. -/
def limitVerdict (c : Config α) (s : Iterate α) : Termination :=
  if s.violation ≤ c.violationTolerance ∧
      s.lastStep ≤ Scalar.sqrt c.acceptableTolerance * s.point.magnitude then .acceptable
  else .iterationLimit

/-- How a run without fault ends. -/
def termination (h : History α) (c : Config α) (start : Iterate α) : Termination :=
  match h.iterations.getLast?.bind (Iteration.verdict? c) with
  | some t => t
  | none => limitVerdict c (h.final c start)

end History

namespace MultiplierMethod

/-- Keeps a remark where the print level asks for progress lines. -/
def progress (c : Config α) (p : Problem α σ) (r : Remark α) : Eval α σ Unit :=
  if 5 ≤ c.printLevel then ExceptT.lift (p.note r) else pure ()

/-- When the descent of an iteration ends. -/
def stopping (c : Config α) : Stopping α where
  gradient := Scalar.max c.tolerance 1e-6
  cost := Scalar.max (0.1 * c.tolerance) 1e-12
  memory := c.memory

/-- The outcome of a descent that raised no fault, with a remark where it was stuck. Without a
better point it stays where it started. -/
def conclude (p : Problem α σ) (x : Point α) :
    Except (Breakdown α) (Descent α) → StateM σ (Inner α)
  | .ok d => do
    match d.stuck with
    | some cause => p.note (.searchFailed cause)
    | none => pure ()
    pure ⟨d.best.getD x, (d.gradient.map Point.maxNorm).getD Scalar.undefined, d.iterations,
      d.stuck.isSome⟩
  | .error cause => do
    p.note (.descentFailed cause)
    pure ⟨x, Scalar.undefined, 0, true⟩

/-- One descent of the merit, once the optimizer has taken its tolerances. The first fault that the
problem raised decides, whatever the optimizer made of it. -/
def descend (minimizer : Minimizer α) (p : Problem α σ) (c : Config α) (merit : Merit α)
    (x : Point α) : Eval α σ (Inner α) := fun s ↦
  match minimizer (stopping c) with
  | .error refusal => (.error (.ofRoutine refusal), s)
  | .ok search =>
    let (outcome, w) := (search x).run (merit.cost p) (merit.gradient p) ⟨none, s⟩
    match w.failure with
    | some fault => (.error fault, w.problem)
    | none =>
      let (inner, s) := conclude p x outcome w.problem
      (.ok inner, s)

/-- One iteration. -/
def iterate (minimizer : Minimizer α) (p : Problem α σ) (c : Config α) (l : Layout α)
    (index : Nat) (s : Iterate α) : Eval α σ (Iteration α) := do
  let inner ← descend minimizer p c ⟨l, s.lambda, s.rho⟩ s.point
  let step := (inner.point.sub s.point).maxNorm
  let rows ← l.rows p inner.point
  let values := l.values inner.point rows
  let violation := l.violation values
  let objective ← p.objective inner.point
  progress c p (.iterated index objective violation inner.gradient s.rho step)
  let agreed ← ExceptT.lift
    (p.intermediate (Iteration.report index s.rho objective violation step inner))
  pure ⟨index, s, inner, rows, violation, l.updateMultipliers s.lambda values s.rho, step,
    objective, agreed⟩

/-- The iterations from `index` on, at most `fuel` of them. -/
def history (minimizer : Minimizer α) (p : Problem α σ) (c : Config α) (l : Layout α) :
    (fuel index : Nat) → Iterate α → StateM σ (History α)
  | 0, _, _ => pure ⟨[], none⟩
  | fuel + 1, index, s => do
    match ← (iterate minimizer p c l index s).run with
    | .error fault => pure ⟨[], some fault⟩
    | .ok i =>
      match i.verdict? c with
      | some _ => pure ⟨[i], none⟩
      | none =>
        let rest ← history minimizer p c l fuel (index + 1) (i.next c)
        pure { rest with iterations := i :: rest.iterations }

/-- Where the first iteration starts: on the variable bounds, without multipliers, at the first
penalty. -/
def start (p : Problem α σ) (c : Config α) (l : Layout α) (x : Point α) :
    Eval α σ (Iterate α) := do
  let x := l.project x
  let rows ← l.rows p x
  progress c p (.started l.n l.m l.size c.penalty)
  pure ⟨x, Point.zeros l.size, c.penalty, l.violation (l.values x rows), Scalar.infinity⟩

/-- The point returned, with what is reported about it. -/
def finish (p : Problem α σ) (c : Config α) (l : Layout α) (s : Iterate α) (t : Termination) :
    Eval α σ (Point α × Summary α) := do
  let x := l.project s.point
  let objective ← p.objective x
  let rows ← l.rows p x
  let split := l.splitMultipliers s.lambda
  progress c p (.ended t objective)
  pure (x, ⟨t.status, t.message, objective, x, rows, split.rows, split.lower, split.upper⟩)

/-- A run from a point. -/
def run (minimizer : Minimizer α) (p : Problem α σ) (c : Config α) (l : Layout α)
    (x : Point α) : Eval α σ (Point α × Summary α) := do
  let s ← start p c l x
  let h ← ExceptT.lift (history minimizer p c l c.iterationLimit 1 s)
  match h.fault with
  | some fault => throw fault
  | none => finish p c l (h.final c s) (h.termination c s)

/-! ## The method as a backend -/

/-- A solver set up for a problem. -/
structure Solver (α σ : Type) where
  problem : Problem α σ
  layout : Layout α
  config : Config α

/-- Sets up a solver; the bounds have to be as many as the variables and rows. -/
def create (base : Config α) (n m : Nat) (p : Problem α σ) (b : Bounds α) :
    Eval α σ (Solver α σ) := do
  Eval.ofExcept (Check.count n ((b.lower.map List.length).getD n))
  Eval.ofExcept (Check.count n ((b.upper.map List.length).getD n))
  Eval.ofExcept (Check.count m b.rowLower.length)
  Eval.ofExcept (Check.count m b.rowUpper.length)
  let l := Layout.ofBounds n b
  ExceptT.lift (p.note (.created n m l.size))
  pure ⟨p, l, base⟩

/-- A solver with one setting changed. -/
def Solver.configure (s : Solver α σ) (name : String) (value : Setting α) :
    Except (Rejection α) (Solver α σ) :=
  (s.config.set name value).map fun c ↦ { s with config := c }

/-- Runs a solver from a point with a coordinate for each variable. -/
def Solver.solve (minimizer : Minimizer α) (s : Solver α σ) (x : Point α) :
    Eval α σ (Point α × Summary α) := do
  Eval.ofExcept (Check.count s.layout.n x.length)
  run minimizer s.problem s.config s.layout x

/-- The method of multipliers around an optimizer, from a base configuration. -/
def backendWith (minimizer : Minimizer α) (base : Config α) : Backend α σ where
  Solver := Solver α σ
  create := create base
  configure := fun s name value ↦ pure (s.configure name value)
  solve := Solver.solve minimizer

/-- The method of multipliers around the limited-memory descent. -/
def backend (base : Config α) : Backend α σ := backendWith LimitedMemory.minimizer base

end MultiplierMethod

end NonlinearProgram
