import NonlinearProgram.Scalar
import NonlinearProgram.Table

/-!
# Solver settings

A setting is an integer, a number or a text under a name; `Settings` is a table of them. What a
solver answers to a setting that it does not take is a `Rejection`, which names the setting and
says what was wrong with its value.
-/

namespace NonlinearProgram

/-- The three kinds of setting. -/
inductive SettingKind where
  | integer
  | number
  | text
  deriving DecidableEq, Repr

/-- The value of one solver setting. -/
inductive Setting (α : Type) where
  | int (value : Int)
  | num (value : α)
  | text (value : String)
  deriving DecidableEq

/-- Named settings. -/
abbrev Settings (α : Type) : Type := Table (Setting α)

namespace Setting

variable {α : Type}

/-- The kind of a setting. -/
def kind : Setting α → SettingKind
  | .int _ => .integer
  | .num _ => .number
  | .text _ => .text

/-- The integer of an integer setting. -/
def toInt? : Setting α → Option Int
  | .int value => some value
  | _ => none

/-- The number of a setting; an integer widens to the nearest number. -/
def toNum? [Scalar α] : Setting α → Option α
  | .int value => some (Scalar.ofInt value)
  | .num value => some value
  | .text _ => none

/-- The text of a text setting. -/
def toText? : Setting α → Option String
  | .text value => some value
  | _ => none

/-- A count as an integer setting. Settings hold signed 64-bit integers, so a count is taken modulo
`2 ^ 64` into the signed range. -/
def ofCount (count : Nat) : Setting α := .int (Int.bmod count UInt64.size)

end Setting

/-- Why a solver does not take a setting. -/
inductive Rejection (α : Type) where
  /-- No setting has this name. -/
  | unknown (name : String)
  /-- The value is of another kind than the setting's. -/
  | wrongKind (name : String) (expected found : SettingKind)
  /-- The print level is not one of 0 to 12. -/
  | levelOutside (name : String) (level : Int)
  /-- A count is below zero. -/
  | negative (name : String) (count : Int)
  /-- A number is not both finite and positive. -/
  | notPositive (name : String) (value : α)
  /-- The text names no penalty strategy. -/
  | notStrategy (name : String) (text : String)
  /-- The text names a second-derivative approximation that is not offered. -/
  | notApproximation (name : String) (text : String)
  /-- A history length is below one. -/
  | noHistory (name : String) (length : Int)
  /-- A reason in the words of some other solver. -/
  | other (reason : String)
  deriving DecidableEq

end NonlinearProgram
