import NonlinearProgram.Problem

/-!
# Terms of an augmented Lagrangian

Each finite side of a bound becomes a `Term`: a scalar condition `s = 0` or `s ≥ 0`, where `s` is
the distance of a row or of a variable from the bound, taken with a sign. A row with equal finite
bounds becomes one equality; a variable never does. A `Layout` is the list of terms of a problem,
rows before variables and lower sides before upper ones, and everything that runs over multipliers
runs over it in this order.

* `Layout.values` gives the distances at a point, and `Layout.violation` the largest of them in the
  forbidden direction.
* `Layout.updateMultipliers` is the first-order update `λ + ρ s`, or `max 0 (λ - ρ s)` for an
  inequality.
* `Layout.splitMultipliers` sorts multipliers by what they belong to, upper sides of rows with a
  minus sign. The gradient of the Lagrangian is `∇f - Jᵀ mult_g - mult_x_l + mult_x_u`, in which
  equality rows have the other sign.
* `Layout.project` moves a point onto the variable bounds.
-/

namespace NonlinearProgram

/-- What a term constrains. -/
inductive Source where
  /-- A row of the stacked constraints. -/
  | row (index : Nat)
  /-- A variable. -/
  | coordinate (index : Nat)
  deriving DecidableEq, Repr

/-- One scalar condition. -/
structure Term (α : Type) where
  source : Source
  /-- One for a lower side and minus one for an upper side. -/
  sign : α
  /-- The bound. -/
  offset : α
  equality : Bool

/-- The terms of a problem with `n` variables and `m` rows. -/
structure Layout (α : Type) where
  terms : List (Term α)
  n : Nat
  m : Nat

/-- Multipliers sorted by what they belong to. -/
structure Multipliers (α : Type) where
  rows : Point α
  lower : Point α
  upper : Point α

variable {α : Type} [Scalar α]

namespace Source

/-- What a source is at a point with given row values. -/
def read (x rows : Point α) : Source → α
  | row j => rows.coord j
  | coordinate i => x.coord i

end Source

namespace Term

/-- The signed distance of a value from the bound. -/
def distance (t : Term α) (v : α) : α := t.sign * (v - t.offset)

/-- How far a distance lies in the forbidden direction. -/
def excess (t : Term α) (s : α) : α :=
  if t.equality then Scalar.abs s else Scalar.max (-s) 0.0

/-- The multiplier after a descent that ended at distance `s`. -/
def update (t : Term α) (rho l s : α) : α :=
  if t.equality then l + rho * s else Scalar.max (l - rho * s) 0.0

/-- Whether a bound is one. -/
def bounded (v : α) : Bool := Scalar.abs v < Box.limit

/-- The terms of the two sides of a bound. -/
def sides (source : Source) (lower upper : α) (equalities : Bool) : List (Term α) :=
  if equalities && bounded lower && bounded upper && lower == upper then
    [⟨source, 1.0, lower, true⟩]
  else
    (if bounded lower then [⟨source, 1.0, lower, false⟩] else []) ++
      (if bounded upper then [⟨source, -1.0, upper, false⟩] else [])

/-- The terms of a list of bounds, the first of them that of source `index`. -/
def ofBounds (source : Nat → Source) (equalities : Bool) : Nat → Point α → Point α → List (Term α)
  | index, lo :: lower, hi :: upper =>
    sides (source index) lo hi equalities ++ ofBounds source equalities (index + 1) lower upper
  | _, _, _ => []

end Term

/-- Adds the multiplier of a term to those of its source. -/
def Multipliers.deposit (ms : Multipliers α) (t : Term α) (l : α) : Multipliers α :=
  match t.source with
  | .row j => { ms with rows := ms.rows.modify j (· + t.sign * l) }
  | .coordinate i =>
    if 0.0 < t.sign then { ms with lower := ms.lower.set i l }
    else { ms with upper := ms.upper.set i l }

namespace Layout

/-- The terms of the given bounds. Variables have terms where both lists of their bounds are
given. -/
def ofBounds (n : Nat) (b : Bounds α) : Layout α where
  terms :=
    Term.ofBounds .row true 0 b.rowLower b.rowUpper ++
      match b.lower, b.upper with
      | some lower, some upper => Term.ofBounds .coordinate false 0 lower upper
      | _, _ => []
  n := n
  m := b.rowLower.length

/-- The number of terms. -/
def size (l : Layout α) : Nat := l.terms.length

/-- Whether there are no terms. -/
def isEmpty (l : Layout α) : Bool := l.terms.isEmpty

/-- The distances of all terms. -/
def values (l : Layout α) (x rows : Point α) : List α :=
  l.terms.map fun t ↦ t.distance (t.source.read x rows)

/-- The largest excess; undefined ones are ignored. -/
def violation (l : Layout α) (values : List α) : α :=
  (List.zipWith Term.excess l.terms values).foldl Scalar.max 0.0

/-- The multipliers of the terms from the given ones on. -/
def updateFrom (rho : α) : List (Term α) → List α → List α → List α
  | t :: terms, l :: lambda, s :: values => t.update rho l s :: updateFrom rho terms lambda values
  | _, lambda, _ => lambda

/-- The multipliers after a descent that ended at the given distances. -/
def updateMultipliers (l : Layout α) (lambda values : List α) (rho : α) : List α :=
  updateFrom rho l.terms lambda values

/-- The multipliers sorted by what they belong to. -/
def splitMultipliers (l : Layout α) (lambda : List α) : Multipliers α :=
  (l.terms.zip lambda).foldl (fun ms p ↦ Multipliers.deposit ms p.1 p.2)
    ⟨.zeros l.m, .zeros l.n, .zeros l.n⟩

/-- Moves the variable of a term onto its bound, if it lies beyond. -/
def enforce (x : Point α) (t : Term α) : Point α :=
  match t.source with
  | .row _ => x
  | .coordinate i =>
    if !t.equality && t.distance (x.coord i) < 0.0 then x.set i t.offset else x

/-- The point moved onto the variable bounds. -/
def project (l : Layout α) (x : Point α) : Point α := l.terms.foldl enforce x

end Layout

end NonlinearProgram
