import NonlinearProgram.Derivative.Forward
import NonlinearProgram.Model.Callback

/-!
# Models and their sessions

A `Model` is a checked problem of a request: an evaluator for the objective, the constraints in
order, and the choice of a difference step. A `Session` is the state of one run over it: the state
of the callbacks beside what the run keeps of its own.

* **Counters.** Value requests count as evaluations and gradient requests as gradients. An
  objective that gives both together counts its calls as evaluations and has no gradients. Probes
  for differences are not counted.
* **One kept evaluation.** Value and gradient that come together are kept with their point, and
  used again as long as the points asked for compare equal to it. A failed evaluation is counted
  but keeps nothing.
* **Arities.** The first successful probe of the constraints fixes how many values each has; from
  then on any other number is a fault.

Constraint values and derivative blocks are stacked in the order of the constraints, and the first
fault ends the request without calling a later constraint.
-/

namespace NonlinearProgram

/-- Value and gradient at a point. -/
structure Evaluation (α : Type) where
  point : Point α
  value : α
  gradient : Point α

/-- The state of a run: that of the callbacks, and what the run keeps of its own. -/
structure Session (α σ : Type) where
  user : σ
  arities : Option (List Nat) := none
  kept : Option (Evaluation α) := none
  evaluations : Nat := 0
  gradients : Nat := 0
  iterations : Nat := 0
  remarks : Array (Remark α) := #[]

/-- A checked problem with `n` variables. -/
structure Model (α σ : Type) where
  evaluator : Evaluator α σ
  parameters : Parameters α
  constraints : List (Constraint α σ)
  step : Step α
  n : Nat

variable {α σ : Type}

namespace Session

/-- An operation on the state of the callbacks. -/
def callUser {β : Type} (act : Eval α σ β) : Eval α (Session α σ) β :=
  Eval.focus Session.user (fun u s ↦ { s with user := u }) act

/-- Keeps a remark. -/
def note (r : Remark α) : StateM (Session α σ) Unit :=
  modify fun s ↦ { s with remarks := s.remarks.push r }

/-- Keeps a remark, inside a computation that may fail. -/
def remark (r : Remark α) : Eval α (Session α σ) Unit := ExceptT.lift (note r)

/-- One more evaluation. -/
def countEvaluation : Eval α (Session α σ) Unit :=
  modify fun s ↦ { s with evaluations := s.evaluations + 1 }

/-- One more gradient. -/
def countGradient : Eval α (Session α σ) Unit :=
  modify fun s ↦ { s with gradients := s.gradients + 1 }

/-- The number of values constraint `index` has to have, once that is fixed. -/
def arity? (s : Session α σ) (index : Nat) : Option Nat := s.arities.bind (·[index]?)

/-- The number of stacked rows, once the arities are fixed. -/
def rowCount? (s : Session α σ) : Option Nat := s.arities.map (·.foldr (· + ·) 0)

end Session

namespace Model

variable [Scalar α]

/-- Checks a problem in this order: second derivatives, the pairing of objective and gradient, the
number of variables, the difference step. -/
def make (objective : Objective α σ) (gradient : Gradient α σ) (second : SecondOrder α σ)
    (n : Nat) (parameters : Parameters α) (constraints : List (Constraint α σ)) (step : Step α) :
    Except (Fault α) (Model α σ) := do
  second.check
  let evaluator ← Evaluator.pair? objective gradient
  if n = 0 then throw .noVariables
  step.check
  pure ⟨evaluator, parameters, constraints, step, n⟩

/-- Value and gradient from the kept evaluation or from one call. -/
def evaluateBoth (m : Model α σ) (both : Callback α σ (α × Point α)) (x : Point α) :
    Eval α (Session α σ) (α × Point α) := do
  let fresh : Eval α (Session α σ) (α × Point α) := do
    Session.remark .cacheMiss
    Session.countEvaluation
    let (value, gradient) ← Session.callUser (both x m.parameters)
    Eval.ofExcept (Check.gradient gradient m.n)
    modify fun s ↦ { s with kept := some ⟨x, value, gradient⟩ }
    pure (value, gradient)
  match (← get).kept with
  | none => fresh
  | some e =>
    if Point.same e.point x then
      Session.remark .cacheHit
      pure (e.value, e.gradient)
    else fresh

/-- The objective. -/
def objective (m : Model α σ) (x : Point α) : Eval α (Session α σ) α :=
  match m.evaluator with
  | .combined both => do
    let (value, _) ← m.evaluateBoth both x
    pure value
  | .differences value | .separate value _ => do
    Session.countEvaluation
    Session.callUser (value x m.parameters)

/-- The gradient of the objective. A gradient that a callback returns has to have an entry for
every variable. -/
def gradient (m : Model α σ) (x : Point α) : Eval α (Session α σ) (Point α) :=
  match m.evaluator with
  | .combined both => do
    let (_, g) ← m.evaluateBoth both x
    pure g
  | .separate _ gradient => do
    Session.countGradient
    let g ← Session.callUser (gradient x m.parameters)
    Eval.ofExcept (Check.gradient g m.n)
    pure g
  | .differences value => do
    Session.countGradient
    Session.callUser (Forward.gradient (fun p ↦ value p m.parameters) x m.step)

/-- The values of constraint `index`, of the fixed number. -/
def constraintValues (index : Nat) (c : Constraint α σ) (x : Point α) :
    Eval α (Session α σ) (Point α) := do
  let values ← Session.callUser (c.eval x)
  match (← get).arity? index with
  | some expected => Eval.ofExcept (Check.arity values.length index expected)
  | none => pure ()
  pure values

/-- The derivative of constraint `index`, with a row for each value and an entry for every
variable. -/
def constraintBlock (m : Model α σ) (index : Nat) (c : Constraint α σ) (x : Point α) :
    Eval α (Session α σ) (Matrix α) := do
  let block ← match c.derivative with
    | some derivative => Session.callUser (derivative x c.parameters)
    | none => Forward.jacobian (constraintValues index c) x m.step
  let height := ((← get).arity? index).getD block.height
  Eval.ofExcept (Check.jacobian block index height m.n)
  pure block

/-- The values of all constraints, stacked. -/
def stackedValues (m : Model α σ) (x : Point α) : Eval α (Session α σ) (Point α) := do
  let parts ← m.constraints.zipIdx.mapM fun p ↦ constraintValues p.2 p.1 x
  pure parts.flatten

/-- The derivatives of all constraints, stacked. -/
def stackedBlocks (m : Model α σ) (x : Point α) : Eval α (Session α σ) (Matrix α) := do
  let blocks ← m.constraints.zipIdx.mapM fun p ↦ m.constraintBlock p.2 p.1 x
  pure (.stack m.n blocks)

/-- Probes the constraints at a point for the bounds of their rows; the first success fixes the
arities. -/
def probe (m : Model α σ) (x : Point α) : Eval α (Session α σ) (RowBounds α) := do
  let bounds ← Session.callUser (Constraint.probe m.constraints x)
  modify fun s ↦ { s with arities := s.arities <|> some bounds.arities }
  pure bounds

/-- The model as a solver sees it. It takes note of every iteration and never asks to stop. -/
def problem (m : Model α σ) : Problem α (Session α σ) where
  objective := m.objective
  gradient := m.gradient
  constraints := m.stackedValues
  jacobian := m.stackedBlocks
  intermediate := fun report ↦ do
    modify fun s ↦ { s with iterations := report.iteration }
    pure true
  note := Session.note

end Model

end NonlinearProgram
