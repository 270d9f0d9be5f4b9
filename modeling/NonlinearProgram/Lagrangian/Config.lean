import NonlinearProgram.Setting

/-!
# Configuration of the multiplier method

The parameters of a run and the settings that change them. Each setting owns one field; the one
without a field, `hessian_approximation`, only confirms what the method does anyway. A setting is
checked for its name, then for the kind of its value, then for its range, and one that is not taken
leaves the configuration as it was.

The penalty starts at the inverse of `barrier`, so that a small barrier means a stiff start.
-/

namespace NonlinearProgram

/-- When the penalty grows after an infeasible iteration. -/
inductive Strategy where
  /-- Always. -/
  | monotone
  /-- Where the violation did not drop to a quarter, or the descent was stuck. -/
  | adaptive
  deriving DecidableEq, Repr

namespace Strategy

/-- The name of a strategy. -/
def name : Strategy → String
  | monotone => "monotone"
  | adaptive => "adaptive"

/-- The strategy of a name. -/
def ofName? (s : String) : Option Strategy :=
  if s = "monotone" then some monotone
  else if s = "adaptive" then some adaptive
  else none

end Strategy

/-- The parameters of a run. -/
structure Config (α : Type) where
  printLevel : Int
  /-- The largest number of iterations. -/
  iterationLimit : Nat
  tolerance : α
  /-- The largest violation that counts as feasible. -/
  violationTolerance : α
  /-- The tolerance of an acceptable end. -/
  acceptableTolerance : α
  strategy : Strategy
  /-- The inverse of the first penalty. -/
  barrier : α
  /-- The number of steps that the inner descent remembers. -/
  memory : Nat
  deriving DecidableEq

namespace Config

variable {α : Type} [Scalar α]

/-- The parameters where none are set. -/
def standard : Config α where
  printLevel := 5
  iterationLimit := 3000
  tolerance := 1e-8
  violationTolerance := 1e-4
  acceptableTolerance := 1e-6
  strategy := .monotone
  barrier := 0.1
  memory := 6

/-- The first penalty. -/
def penalty (c : Config α) : α := 1.0 / c.barrier

/-- The value of an integer setting. -/
def readInt (name : String) (value : Setting α) : Except (Rejection α) Int :=
  match value.toInt? with
  | some n => .ok n
  | none => .error (.wrongKind name .integer value.kind)

/-- The value of a positive finite setting. -/
def readPositive (name : String) (value : Setting α) : Except (Rejection α) α :=
  match value.toNum? with
  | none => .error (.wrongKind name .number value.kind)
  | some v =>
    if !Scalar.isFinite v || v ≤ 0.0 then .error (.notPositive name v) else .ok v

/-- The value of a text setting. -/
def readText (name : String) (value : Setting α) : Except (Rejection α) String :=
  match value.toText? with
  | some s => .ok s
  | none => .error (.wrongKind name .text value.kind)

/-- The configuration with one setting changed. -/
def set (c : Config α) (name : String) (value : Setting α) : Except (Rejection α) (Config α) :=
  match name with
  | "print_level" => do
    let level ← readInt name value
    if 0 ≤ level ∧ level ≤ 12 then pure { c with printLevel := level }
    else throw (.levelOutside name level)
  | "max_iter" => do
    let count ← readInt name value
    if 0 ≤ count then pure { c with iterationLimit := count.toNat }
    else throw (.negative name count)
  | "tol" => do
    let v ← readPositive name value
    pure { c with tolerance := v }
  | "constr_viol_tol" => do
    let v ← readPositive name value
    pure { c with violationTolerance := v }
  | "acceptable_tol" => do
    let v ← readPositive name value
    pure { c with acceptableTolerance := v }
  | "mu_init" => do
    let v ← readPositive name value
    pure { c with barrier := v }
  | "mu_strategy" => do
    let text ← readText name value
    match Strategy.ofName? text with
    | some strategy => pure { c with strategy := strategy }
    | none => throw (.notStrategy name text)
  | "hessian_approximation" => do
    let text ← readText name value
    if text = "limited-memory" then pure c else throw (.notApproximation name text)
  | "limited_memory_max_history" => do
    let length ← readInt name value
    if 1 ≤ length then pure { c with memory := length.toNat } else throw (.noHistory name length)
  | _ => .error (.unknown name)

end Config

end NonlinearProgram
