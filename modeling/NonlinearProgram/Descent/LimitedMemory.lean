import NonlinearProgram.Descent.LineSearch

/-!
# Limited-memory descent

A quasi-Newton descent that remembers the last few steps with the changes of the gradient along
them. `Curvature.direction` applies the inverse Hessian that these pairs describe to the gradient,
in a pass from the newest pair to the oldest and one back, and a line search along the result gives
the next point.

The descent ends when the gradient or the change of cost is below its tolerance, when the cost is
infinitely low, or at the iteration limit; then its result is the point with the least cost. It
also ends, stuck, with its line search. Only a fault at the start or at the gradient of an accepted
point breaks it down.
-/

namespace NonlinearProgram

/-- When a descent ends, and how many steps it remembers. -/
structure Stopping (α : Type) where
  gradient : α
  cost : α
  memory : Nat

/-- What a descent that did not break down has to say. -/
structure Descent (α : Type) where
  /-- The point with the least cost, where a cost could be compared. -/
  best : Option (Point α)
  /-- The gradient at the last point, unless the line search failed there. -/
  gradient : Option (Point α)
  iterations : Nat
  /-- Why the line search failed, if it did. -/
  stuck : Option (Breakdown α)

/-- An optimizer. It takes the tolerances or refuses them; where it took them it is, from a
starting point, a query for the outcome of a descent. -/
abbrev Minimizer (α : Type) : Type :=
  Stopping α → Except (RoutineError α) (Point α → Query α (Except (Breakdown α) (Descent α)))

/-- A step and the change of the gradient along it. -/
structure Curvature (α : Type) where
  step : Point α
  change : Point α

namespace Curvature

variable {α : Type} [Scalar α]

/-- The inverse of the curvature along a step. -/
def inverse (c : Curvature α) : α := 1.0 / c.change.dot c.step

/-- Takes the part along a pair out of a gradient; the coefficient is kept, last one first. -/
def descend (acc : Point α × List (Curvature α × α)) (c : Curvature α) :
    Point α × List (Curvature α × α) :=
  let coefficient := c.step.dot acc.1 * c.inverse
  (acc.1.sub (c.change.scale coefficient), (c, coefficient) :: acc.2)

/-- Puts the part along a pair back, with the curvature of the pair. -/
def ascend (r : Point α) (p : Curvature α × α) : Point α :=
  let beta := p.1.change.dot r * p.1.inverse
  r.add (p.1.step.scale (p.2 - beta))

/-- The scale of the inverse Hessian before any pair: the curvature along the newest one. -/
def scaling (pairs : List (Curvature α)) : α :=
  match pairs.getLast? with
  | some c => c.step.dot c.change / c.change.dot c.change
  | none => 1.0

/-- The direction of descent for a gradient, with the pairs in order of age, oldest first. -/
def direction (pairs : List (Curvature α)) (g : Point α) : Point α :=
  let (q, coefficients) := pairs.reverse.foldl descend (g, [])
  (coefficients.foldl ascend (q.scale (scaling pairs))).scale (-1.0)

end Curvature

namespace LimitedMemory

variable {α : Type} [Scalar α]

/-- The largest number of iterations. -/
def iterationLimit : Nat := 1000

/-- The state of a descent between iterations. -/
structure State (α : Type) where
  point : Point α
  gradient : Point α
  cost : α
  /-- The cost one iteration earlier. -/
  previous : α
  least : α
  best : Option (Point α)
  pairs : List (Curvature α)

/-- Whether a value is infinite, with the sign of `a`. -/
def infiniteLike (a b : α) : Bool :=
  !Scalar.isFinite a && !Scalar.isUndefined a && a == b

/-- The least cost so far and its point, after a new point. Of equal costs the first one stays,
unless both are infinite. -/
def improve (least : α) (best : Option (Point α)) (x : Point α) (f : α) : α × Option (Point α) :=
  if f < least || infiniteLike f least then (f, some x) else (least, best)

/-- Whether the tolerances are met or the cost cannot fall any more. -/
def State.settled (s : State α) (stop : Stopping α) : Bool :=
  s.gradient.norm < stop.gradient || Scalar.abs (s.previous - s.cost) < stop.cost ||
    s.least ≤ -Scalar.infinity

/-- The outcome where the tolerances are met or the iteration limit is. -/
def State.outcome (s : State α) (iterations : Nat) : Descent α :=
  ⟨s.best, some s.gradient, iterations, none⟩

/-- The pairs that are remembered once `iterations` have passed. -/
def remembered (memory iterations : Nat) (pairs : List (Curvature α)) : List (Curvature α) :=
  if memory ≤ iterations then pairs.drop 1 else pairs

/-- Iterates until the descent ends; `fuel` is what the iteration limit leaves. -/
def loop (stop : Stopping α) : (fuel iterations : Nat) → State α → Search α (Descent α)
  | 0, iterations, s => pure (s.outcome iterations)
  | fuel + 1, iterations, s =>
    if s.settled stop then pure (s.outcome iterations)
    else do
      let d := Curvature.direction s.pairs s.gradient
      let searched ← ExceptT.lift (LineSearch.run s.point s.gradient d s.cost).run
      match searched with
      | .error cause => pure ⟨s.best, none, iterations + 1, some cause⟩
      | .ok (x, f) => do
        let g ← Search.gradient x
        let pair : Curvature α := ⟨x.sub s.point, g.sub s.gradient⟩
        let (least, best) := improve s.least s.best x f
        loop stop fuel (iterations + 1)
          ⟨x, g, f, s.cost, least, best, remembered stop.memory iterations s.pairs ++ [pair]⟩

/-- The descent from a point. -/
def descend (stop : Stopping α) (x : Point α) : Search α (Descent α) := do
  let f ← Search.cost x
  let g ← Search.gradient x
  let (least, best) := improve Scalar.infinity none x f
  loop stop iterationLimit 0 ⟨x, g, f, Scalar.infinity, least, best, []⟩

/-- The descent as an optimizer, which takes all tolerances that it is ever given. -/
def minimizer : Minimizer α := fun stop ↦ .ok fun x ↦ (descend stop x).run

end LimitedMemory

end NonlinearProgram
