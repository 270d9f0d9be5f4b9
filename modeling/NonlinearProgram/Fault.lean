import NonlinearProgram.Point
import NonlinearProgram.Setting

/-!
# Faults

`Fault` lists everything that can end a request without a result: mistakes in the request itself,
arguments that a callback asked for in vain, answers of the wrong shape, and failures that a
callback reports. A fault that a callback reports is handed on as it is, so every constructor can
also arise there. `Fault.isConfiguration` tells the mistakes in the request from the others.

`Eval` is the monad of everything that may fault: the state of the callbacks lives on when a fault
ends the computation.
-/

namespace NonlinearProgram

/-- Why there is no result. -/
inductive Fault (α : Type) where
  /-- A second derivative was supplied, which no part of the method uses. -/
  | unsupported (feature : String)
  /-- The form of the objective and the form of the gradient do not go together. -/
  | unpairedGradient (objective gradient : String)
  /-- The tag of a constraint names no kind of constraint. -/
  | unknownKind (tag : String)
  /-- The solver did not take a setting. -/
  | rejectedSetting (name : String) (value : Setting α) (reason : Rejection α)
  /-- The tolerance is not a positive finite number. -/
  | badTolerance (tolerance : α) (reason : String)
  /-- The difference step is not a positive finite number. -/
  | badStep (step : α)
  /-- There are more or fewer bounds than there are variables or rows. -/
  | boundCount (expected found : Nat)
  /-- The bounds of a variable leave it no value. -/
  | emptyBound (index : Nat) (lower upper : α)
  /-- There are no variables. -/
  | noVariables
  /-- A callback asked for an argument that is not there. -/
  | missingArgument (name : String)
  /-- A callback asked for an argument of another kind than the one that is there. -/
  | argumentKind (name expected : String)
  /-- A gradient has another length than the point. -/
  | gradientLength (expected found : Nat)
  /-- The derivative of a constraint has the wrong shape. -/
  | jacobianShape (constraint : Nat) (expected found : Nat × Nat)
  /-- A constraint returned another number of values than before. -/
  | arityChanged (constraint expected found : Nat)
  /-- A callback failed. -/
  | evaluation (text : String)
  /-- A numeric routine was given a bad parameter. -/
  | invalidParameter (text : String)
  /-- A numeric routine lacks an operation. -/
  | notImplemented (text : String)
  /-- A numeric routine was used before it was set up. -/
  | notInitialized (text : String)
  /-- A numeric routine found a condition violated. -/
  | conditionViolated (text : String)
  /-- A saved state was not found. -/
  | checkpointNotFound (text : String)
  /-- A numeric routine found itself in an unexpected state. -/
  | potentialBug (text : String)
  /-- A numeric routine found itself in an impossible state. -/
  | impossible (text : String)
  /-- A failure from outside this library. -/
  | foreign (text : String)
  /-- A failure of which nothing is known. -/
  | unknown
  deriving DecidableEq

/-- Whether a fault is a mistake in the request, found before the solver runs. -/
def Fault.isConfiguration {α : Type} : Fault α → Bool
  | .unsupported _ | .unpairedGradient .. | .unknownKind _ | .rejectedSetting .. | .badTolerance ..
  | .badStep _ | .boundCount .. | .emptyBound .. | .noVariables => true
  | _ => false

/-- A failure that a numeric routine hands back: a fault of a callback that it called, a failure of
its own, or something else. -/
inductive RoutineError (α : Type) where
  /-- A fault met on the way. -/
  | fault (fault : Fault α)
  | invalidParameter (text : String)
  | notImplemented (text : String)
  | notInitialized (text : String)
  | conditionViolated (text : String)
  | checkpointNotFound (text : String)
  | potentialBug (text : String)
  | impossible (text : String)
  /-- A kind of failure without a fault of its own. -/
  | unlisted
  /-- A failure that no routine raised. -/
  | foreign (text : String)

/-- The fault that stands for a failed routine: a fault met on the way comes back as it was, and a
failure keeps its text. -/
def Fault.ofRoutine {α : Type} : RoutineError α → Fault α
  | .fault fault => fault
  | .invalidParameter text => .invalidParameter text
  | .notImplemented text => .notImplemented text
  | .notInitialized text => .notInitialized text
  | .conditionViolated text => .conditionViolated text
  | .checkpointNotFound text => .checkpointNotFound text
  | .potentialBug text => .potentialBug text
  | .impossible text => .impossible text
  | .unlisted => .unknown
  | .foreign text => .foreign text

/-- Computations on a state `σ` that may end in a fault; the state reached is kept either way. -/
abbrev Eval (α σ : Type) : Type → Type := ExceptT (Fault α) (StateM σ)

/-! ## Checks

What a request and the answers of its callbacks are checked for. A tolerance or step has to be
positive and finite, where a tolerance of zero means that none was given; of what a callback
returns only the shape is checked, never the values. -/

namespace Check

variable {α : Type}

/-- The tolerance to use: none if it is missing or zero. -/
def tolerance [Scalar α] : Option α → Except (Fault α) (Option α)
  | none => .ok none
  | some t =>
    if t == 0.0 then .ok none
    else if !Scalar.isFinite t then .error (.badTolerance t "Tolerance must be finite.")
    else if t < 0.0 then .error (.badTolerance t "Tolerance must be positive.")
    else .ok (some t)

/-- A difference step is positive and finite. -/
def step [Scalar α] (h : α) : Except (Fault α) Unit :=
  if !Scalar.isFinite h then .error (.badStep h)
  else if h ≤ 0.0 then .error (.badStep h)
  else .ok ()

/-- A gradient has an entry for every variable. -/
def gradient (g : Point α) (n : Nat) : Except (Fault α) Unit :=
  if g.length = n then .ok () else .error (.gradientLength n g.length)

/-- The derivative of constraint `index` has the expected shape. -/
def jacobian (block : Matrix α) (index height width : Nat) : Except (Fault α) Unit :=
  if block.height = height ∧ block.width = width then .ok ()
  else .error (.jacobianShape index (height, width) block.shape)

/-- Constraint `index` returned as many values as expected. -/
def arity (found index expected : Nat) : Except (Fault α) Unit :=
  if found = expected then .ok () else .error (.arityChanged index expected found)

/-- There are as many bounds as there are things to bound. -/
def count (expected found : Nat) : Except (Fault α) Unit :=
  if expected = found then .ok () else .error (.boundCount expected found)

end Check

/-- The outcome of a check, as a computation. -/
def Eval.ofExcept {α σ β : Type} (outcome : Except (Fault α) β) : Eval α σ β :=
  ExceptT.mk (pure outcome)

end NonlinearProgram
