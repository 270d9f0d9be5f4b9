import NonlinearProgram.Decimal
import NonlinearProgram.Remark

/-!
# Faults and remarks in words

The one place where the wording of faults, rejections and setting values is decided, and that of the
lines of progress. Numbers inside a sentence are written in full, without an exponent. Progress
lines give their numbers in columns: one digit before the point and a fixed number after it, with
the exponent always written.
-/

namespace NonlinearProgram

/-! ## Faults -/

/-- A number inside a sentence. -/
def numberText (x : Float) : String := Style.plain.write x

/-- The kind of a setting, with its article left to the sentence. -/
def SettingKind.name : SettingKind → String
  | .integer => "integer"
  | .number => "number"
  | .text => "string"

/-- The kind of a setting with its article. -/
def SettingKind.phrase : SettingKind → String
  | .integer => "an integer"
  | .number => "a number"
  | .text => "a string"

/-- The value of a setting, without quotes. -/
def Setting.display : Setting Float → String
  | .int value => toString value
  | .num value => numberText value
  | .text value => value

/-- Why a solver does not take a setting, in words. -/
def Rejection.message : Rejection Float → String
  | .unknown name => s!"unknown option \"{name}\""
  | .wrongKind name expected found => s!"{name} expects {expected.phrase}, got a {found.name}"
  | .levelOutside name level => s!"{name} must be in 0..=12, got {level}"
  | .negative name count => s!"{name} must be >= 0, got {count}"
  | .notPositive name value => s!"{name} must be finite and positive, got {numberText value}"
  | .notStrategy name text => s!"{name} must be \"monotone\" or \"adaptive\", got \"{text}\""
  | .notApproximation name text =>
    s!"{name} \"{text}\" is not available: second derivatives are never evaluated"
  | .noHistory name length => s!"{name} must be >= 1, got {length}"
  | .other reason => reason

/-- The number of rows and columns of a matrix. -/
def shapeText (shape : Nat × Nat) : String := s!"({shape.1}, {shape.2})"

/-- A fault in words. -/
def Fault.message : Fault Float → String
  | .unsupported feature =>
    s!"Unsupported feature '{feature}': second-derivative information is not supported"
  | .unpairedGradient objective gradient =>
    s!"Invalid gradient specification: a {objective} objective cannot be paired with a " ++
      s!"{gradient} gradient"
  | .unknownKind tag => s!"Invalid constraint kind '{tag}': expected 'eq' or 'ineq'"
  | .rejectedSetting name value reason =>
    s!"Invalid solver option: {name}: {value.display} (Original message: \"{reason.message}\")"
  | .badTolerance tolerance reason => s!"Invalid tolerance {numberText tolerance}: {reason}"
  | .badStep step =>
    s!"Invalid finite-difference step {numberText step}: must be finite and > 0"
  | .boundCount expected found =>
    s!"Bounds length mismatch: expected {expected} pairs, found {found}"
  | .emptyBound index lower upper =>
    s!"Invalid bound for variable {index}: lower {numberText lower} exceeds upper " ++
      numberText upper
  | .noVariables => "Initial point must have at least one entry"
  | .missingArgument name => s!"Missing argument '{name}'"
  | .argumentKind name expected => s!"Argument '{name}' is not a {expected}"
  | .gradientLength expected found =>
    s!"Gradient dimension mismatch: expected {expected}, found {found}"
  | .jacobianShape constraint expected found =>
    s!"Jacobian of constraint {constraint} has shape {shapeText found}, expected " ++
      shapeText expected
  | .arityChanged constraint expected found =>
    s!"Constraint {constraint} returned {found} values, expected {expected} as at the initial " ++
      "point"
  | .evaluation text => s!"Evaluation failed: {text}"
  | .invalidParameter text => s!"Invalid parameter: {text}"
  | .notImplemented text => s!"Not implemented: {text}"
  | .notInitialized text => s!"Not initialized: {text}"
  | .conditionViolated text => s!"Condition violated: {text}"
  | .checkpointNotFound text => s!"Checkpoint not found: {text}"
  | .potentialBug text => s!"Potential bug: {text}"
  | .impossible text => s!"Impossible error: {text}"
  | .foreign text => s!"Backend error: {text}"
  | .unknown => "Unknown error"

/-! ## Remarks -/

/-- Text filled up with blanks from the left. -/
def padLeft (width : Nat) (text : String) : String :=
  String.ofList (List.replicate (width - text.length) ' ') ++ text

/-- Why a line search gave up, in words. -/
def Breakdown.message : Breakdown Float → String
  | .evaluation fault => fault.message
  | .ascent =>
    "Condition violated: \"`MoreThuenteLineSearch`: Search direction must be a descent direction.\""
  | .notFinite true =>
    "Condition violated: \"`MoreThuenteLineSearch`: NaN or Inf encountered during iteration\""
  | .notFinite false =>
    "Condition violated: \"MoreThuenteLineSearch: NaN or Inf encountered during iteration\""
  | .exhausted => "Condition violated: \"`MoreThuenteLineSearch`: No acceptable step.\""

/-- The name of a severity. -/
def Severity.name : Severity → String
  | .debug => "DEBUG"
  | .info => "INFO"
  | .warn => "WARN"

/-- A remark in words. -/
def Remark.message : Remark Float → String
  | .cacheHit => "combined evaluation cache hit"
  | .cacheMiss => "combined evaluation cache miss"
  | .aliasDropped former current =>
    s!"dropping option alias '{former}': '{current}' is already set"
  | .applying name value => s!"setting solver option {name} = {value.display}"
  | .created n m terms => s!"augmented Lagrangian backend: n={n} m={m} terms={terms}"
  | .solving n m settings => s!"solving n={n} m={m} with {settings} option(s)"
  | .finished status message => s!"solver finished: status={status} ({message})"
  | .started n m terms penalty =>
    s!"augmented Lagrangian: n={n} m={m} terms={terms} rho0={scientific 3 false penalty}"
  | .iterated index objective violation gradient penalty step =>
    s!"iter {padLeft 4 (toString index)}  f={scientific 8 true objective}  " ++
    s!"inf_pr={scientific 2 false violation}  inf_du={scientific 2 false gradient}  " ++
    s!"rho={scientific 1 false penalty}  ||d||={scientific 2 false step}"
  | .ended termination objective =>
    s!"{termination.message} (status {termination.status}), f={scientific 8 true objective}"
  | .searchFailed cause =>
    s!"inner L-BFGS exited early: Line search terminated with: '{cause.message}'"
  | .descentFailed cause =>
    s!"inner L-BFGS stopped early, keeping the current point: {cause.message}"

/-- A remark as a line, its severity first. -/
def Remark.line (r : Remark Float) : String := s!"{r.severity.name} {r.message}"

end NonlinearProgram
