import NonlinearProgram.Lagrangian.Run
import NonlinearProgram.Model.Session
import NonlinearProgram.Settings.ForSolver

/-!
# Requests

A `Request` asks for a minimizer of an objective under constraints and bounds, and `minimize` runs
it on a backend. The order of its steps can be seen by callbacks and solvers: everything that can
be checked without a call is checked first, then the constraints are probed once, then the solver
is set up, configured and run.
-/

namespace NonlinearProgram

/-! ## Results

A request may start from a bare number or from a point; the solution has the same form. A result
is a success exactly where the solver's status is zero; any other status is an outcome like this
one, not a fault. -/

/-- A bare number or a point. -/
inductive Location (α : Type) where
  | scalar (value : α)
  | vector (point : Point α)

/-- How often a run called the objective and its gradient, and how many iterations it had. -/
structure Counters where
  evaluations : Nat
  gradients : Nat
  iterations : Nat
  deriving DecidableEq

/-- The result of a request. -/
structure Result (α : Type) where
  solution : Location α
  success : Bool
  status : Int
  message : String
  objective : α
  summary : Summary α
  counters : Counters

namespace Location

variable {α : Type}

/-- The location as a point. -/
def toPoint : Location α → Point α
  | scalar value => [value]
  | vector point => point

/-- Whether the location is a bare number. -/
def isScalar : Location α → Bool
  | scalar _ => true
  | vector _ => false

/-- The number of coordinates. -/
def size (l : Location α) : Nat := l.toPoint.length

/-- A point in the form of a location; only a single coordinate can be a bare number. -/
def reshape (l : Location α) (x : Point α) : Location α :=
  match l, x with
  | scalar _, [value] => scalar value
  | _, x => vector x

end Location

/-- The result of a run that started at `start` and ended at `x`. -/
def Result.assemble {α : Type} (start : Location α) (x : Point α) (summary : Summary α)
    (counters : Counters) : Result α where
  solution := start.reshape x
  success := summary.status = 0
  status := summary.status
  message := summary.message
  objective := summary.objective
  summary := summary
  counters := counters

/-! ## Requests -/

/-- What is to be minimized, and how. Only objective and start are required. -/
structure Request (α σ : Type) where
  objective : Objective α σ
  start : Location α
  parameters : Parameters α := ∅
  /-- Parameters whose named ones are set over those of `parameters`. -/
  extra : Parameters α := ∅
  gradient : Gradient α σ := .missing
  second : SecondOrder α σ := {}
  constraints : List (Constraint α σ) := []
  bounds : Option (List (α × α)) := none
  tolerance : Option α := none
  settings : Settings α := ∅
  step : Step α

variable {α σ : Type} [Scalar α]

/-- The counters of a session. -/
def Session.counters (s : Session α σ) : Counters := ⟨s.evaluations, s.gradients, s.iterations⟩

namespace Request

/-- A request after all checks that call nothing. -/
structure Checked (α σ : Type) where
  model : Model α σ
  tolerance : Option α
  lower : Option (Point α)
  upper : Option (Point α)

/-- Checks the tolerance, the model and the variable bounds, in this order. -/
def check (r : Request α σ) : Except (Fault α) (Checked α σ) := do
  let tolerance ← Check.tolerance r.tolerance
  let n := r.start.toPoint.length
  let model ← Model.make r.objective r.gradient r.second n (r.parameters.mergeNamed r.extra)
    r.constraints r.step
  let (lower, upper) ← Box.ofPairs r.bounds n
  pure ⟨model, tolerance, lower, upper⟩

/-- The settings handed to the solver. -/
def solverSettings (r : Request α σ) (tolerance : Option α) : Settings α :=
  Settings.forSolver r.settings tolerance r.second.supplied

/-- Keeps the remarks on the names of the settings. -/
def noteNames (r : Request α σ) : StateM (Session α σ) Unit :=
  modify fun s ↦
    { s with remarks := s.remarks ++ (Settings.resolveRemarks r.settings).toArray }

/-- Runs a checked request: probe, set up, configure, solve. -/
def runChecked (r : Request α σ) (c : Checked α σ) (b : Backend α (Session α σ)) :
    Eval α (Session α σ) (Result α) := do
  let x := r.start.toPoint
  let n := x.length
  let rows ← c.model.probe x
  let m := rows.size
  let solver ← b.create n m c.model.problem ⟨c.lower, c.upper, rows.lower, rows.upper⟩
  ExceptT.lift r.noteNames
  let settings := r.solverSettings c.tolerance
  let solver ← b.configureAll Session.note settings solver
  Session.remark (.solving n m settings.size)
  let (final, summary) ← b.solve solver x
  Session.remark (.finished summary.status summary.message)
  pure (.assemble r.start final summary (← get).counters)

/-- Runs a request on a backend. -/
def minimize (r : Request α σ) (b : Backend α (Session α σ)) :
    Eval α (Session α σ) (Result α) :=
  match r.check with
  | .error fault => throw fault
  | .ok c => r.runChecked c b

end Request

end NonlinearProgram
