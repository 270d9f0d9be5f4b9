import NonlinearProgram.Descent.Query

/-!
# Remarks

What a run has to say about its progress, as data. A run never reads its remarks; whoever keeps
them may turn them into lines of text.

The last remark of a run says how it ended. `Termination` lists the five ways in which a run of the
multiplier method ends, with the status numbers and messages of interior-point solvers, so that
results read alike.
-/

namespace NonlinearProgram

/-! ## How a run ends -/

/-- How a run of the multiplier method ended. -/
inductive Termination where
  /-- Feasible, and the last step was small. -/
  | succeeded
  /-- Feasible, with the inner descent stuck or the last step small in a wider sense. -/
  | acceptable
  /-- Infeasible with the largest penalty. -/
  | infeasible
  /-- The problem asked to stop. -/
  | userStop
  /-- The iteration limit was reached. -/
  | iterationLimit
  deriving DecidableEq, Repr

namespace Termination

/-- All ways to end. -/
def all : List Termination := [succeeded, acceptable, infeasible, userStop, iterationLimit]

/-- The status number. -/
def status : Termination → Int
  | succeeded => 0
  | acceptable => 1
  | infeasible => 2
  | userStop => 5
  | iterationLimit => -1

/-- The status in words. -/
def message : Termination → String
  | succeeded => "Solve_Succeeded"
  | acceptable => "Solved_To_Acceptable_Level"
  | infeasible => "Infeasible_Problem_Detected"
  | userStop => "User_Requested_Stop"
  | iterationLimit => "Maximum_Iterations_Exceeded"

end Termination

/-! ## Progress -/

/-- How much a remark matters. -/
inductive Severity where
  | debug
  | info
  | warn
  deriving DecidableEq, Repr

/-- One remark about the progress of a run. -/
inductive Remark (α : Type) where
  /-- The last evaluation of objective and gradient was used again. -/
  | cacheHit
  /-- Objective and gradient were evaluated at a new point. -/
  | cacheMiss
  /-- A setting was left out, since the setting it is another name of is present. -/
  | aliasDropped (former current : String)
  /-- A setting is about to be handed to the solver. -/
  | applying (name : String) (value : Setting α)
  /-- A solver was set up for `n` variables and `m` rows. -/
  | created (n m terms : Nat)
  /-- The solver is about to start. -/
  | solving (n m settings : Nat)
  /-- The solver is done. -/
  | finished (status : Int) (message : String)
  /-- The multiplier method starts. -/
  | started (n m terms : Nat) (penalty : α)
  /-- One iteration of the multiplier method is complete. -/
  | iterated (index : Nat) (objective violation gradient penalty step : α)
  /-- The multiplier method ends. -/
  | ended (termination : Termination) (objective : α)
  /-- A descent ended with its line search. -/
  | searchFailed (cause : Breakdown α)
  /-- A descent broke off and the point before it stays. -/
  | descentFailed (cause : Breakdown α)

/-- How much each remark matters. -/
def Remark.severity {α : Type} : Remark α → Severity
  | .cacheHit | .cacheMiss | .aliasDropped .. | .applying .. | .created .. | .solving ..
  | .finished .. => .debug
  | .started .. | .iterated .. | .ended .. => .info
  | .searchFailed _ | .descentFailed _ => .warn

/-- Whether a remark is at least as severe as asked for. -/
def Severity.admits (least : Severity) (s : Severity) : Bool :=
  match least, s with
  | .debug, _ => true
  | .info, .debug => false
  | .info, _ => true
  | .warn, .warn => true
  | .warn, _ => false

end NonlinearProgram
