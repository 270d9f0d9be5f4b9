/-!
# Scalars

The arithmetic that the method is written over. Everything numeric in this library takes its
operations from `Scalar`, so that one text runs on `Float` and is also a statement about exact
ordered arithmetic. The class carries operations only: no law is assumed, because `Float` has
few, and the order of operations in each definition is therefore part of its meaning.

`Scalar.max` and `Scalar.min` ignore an undefined operand: the other one is the answer.
-/

namespace NonlinearProgram

/-- The operations of a number type on which the method can run. -/
class Scalar (α : Type) extends Add α, Sub α, Mul α, Div α, Neg α, LT α, LE α, BEq α,
    OfScientific α where
  decidableLT : DecidableLT α
  decidableLE : DecidableLE α
  /-- The magnitude of a value. -/
  abs : α → α
  /-- The square root. -/
  sqrt : α → α
  /-- Whether a value is neither infinite nor undefined. -/
  isFinite : α → Bool
  /-- The value nearest to an integer. -/
  ofInt : Int → α
  /-- The value above all finite ones, in a type that has it. -/
  infinity : α
  /-- The value that compares equal to nothing, in a type that has it. -/
  undefined : α

namespace Scalar

attribute [reducible, instance] decidableLT decidableLE

variable {α : Type} [Scalar α]

/-- A value that differs from itself is undefined. -/
def isUndefined (a : α) : Bool := !(a == a)

/-- The larger of two values; an undefined one is ignored. -/
def max (a b : α) : α := if b < a then a else if b == b then b else a

/-- The smaller of two values; an undefined one is ignored. -/
def min (a b : α) : α := if a < b then a else if b == b then b else a

/-- The square of a value, by one multiplication. -/
def square (a : α) : α := a * a

end Scalar

instance : Scalar Float where
  decidableLT := inferInstance
  decidableLE := inferInstance
  abs := Float.abs
  sqrt := Float.sqrt
  isFinite := Float.isFinite
  ofInt := Float.ofInt
  infinity := 1.0 / 0.0
  undefined := 0.0 / 0.0

end NonlinearProgram
