import NonlinearProgram.Descent.Query

/-!
# Safeguarded cubic steps

One refinement of a line search. Three steps along a direction are known with the value and slope
of the function there: the best one so far, the other end of an interval that may be known to hold
a minimum, and the current trial. `Bracket.refine` replaces one end by the trial and picks the next
trial by interpolation. Four cases are told apart.

1. The value rose. A minimum is bracketed; of the cubic and the quadratic minimizer the cubic one
   is taken if it is closer to the best step, else their mean.
2. The slope changed its sign. A minimum is bracketed; of the cubic and the secant step the one
   further from the trial is taken.
3. The slope fell in magnitude. The cubic step counts only if the cubic tends to infinity in the
   direction of the step; inside a bracket the closer step is taken, outside the further one.
4. The slope did not fall. Inside a bracket the cubic step is taken, outside the end of the
   interval.
-/

namespace NonlinearProgram

/-- A step along a direction, with value and slope there. -/
structure Sample (α : Type) where
  step : α
  value : α
  slope : α

/-- The steps of a line search: the best one, the other end of the interval, the trial, and whether
the interval holds a minimum. -/
structure Bracket (α : Type) where
  best : Sample α
  other : Sample α
  trial : Sample α
  closed : Bool

namespace Bracket

variable {α : Type} [Scalar α]

/-- The coefficient `θ` of the cubic with slopes `p` and `q` that falls by `fall` over `run`, checked
to be finite with the slopes. -/
def theta (quoted : Bool) (fall run p q : α) : Except (Breakdown α) α :=
  let t := 3.0 * fall / run + p + q
  if Scalar.isFinite t && Scalar.isFinite p && Scalar.isFinite q then .ok t
  else .error (.notFinite quoted)

/-- The radicand of the cubic step, scaled by `s`. -/
def radicand (t s p q : α) : α := Scalar.square (t / s) - p / s * (q / s)

/-- The largest of three values. -/
def largest (t p q : α) : α := Scalar.max (Scalar.max t p) q

/-- The trial with the next step, and the ends of the interval for it. -/
structure Proposal (α : Type) where
  step : α
  /-- Whether the step is to be kept away from the far end of the interval. -/
  bounded : Bool
  closed : Bool

/-- The secant step through the trial and the best sample. -/
def secant (b : Bracket α) : α :=
  b.trial.step + b.trial.slope / (b.trial.slope - b.best.slope) * (b.best.step - b.trial.step)

/-- The value rose. -/
def proposeRise (b : Bracket α) : Except (Breakdown α) (Proposal α) := do
  let x := b.best
  let p := b.trial
  let t ← theta false (x.value - p.value) (p.step - x.step) x.slope p.slope
  let s := largest t x.slope p.slope
  let root := s * Scalar.sqrt (radicand t s x.slope p.slope)
  let gamma := if p.step < x.step then -root else root
  let ratio := (gamma - x.slope + t) / (gamma - x.slope + gamma + p.slope)
  let cubic := x.step + ratio * (p.step - x.step)
  let quadratic := x.step +
    x.slope / ((x.value - p.value) / (p.step - x.step) + x.slope) / 2.0 * (p.step - x.step)
  let step :=
    if Scalar.abs (cubic - x.step) < Scalar.abs (quadratic - x.step) then cubic
    else cubic + (quadratic - cubic) / 2.0
  pure ⟨step, true, true⟩

/-- The slope changed its sign. -/
def proposeTurn (b : Bracket α) : Except (Breakdown α) (Proposal α) := do
  let x := b.best
  let p := b.trial
  let t ← theta false (x.value - p.value) (p.step - x.step) x.slope p.slope
  let s := largest t x.slope p.slope
  let root := s * Scalar.sqrt (radicand t s x.slope p.slope)
  let gamma := if x.step < p.step then -root else root
  let ratio := (gamma - p.slope + t) / (gamma - p.slope + gamma + x.slope)
  let cubic := p.step + ratio * (x.step - p.step)
  let step :=
    if Scalar.abs (b.secant - p.step) < Scalar.abs (cubic - p.step) then cubic else b.secant
  pure ⟨step, false, true⟩

/-- The slope fell in magnitude. -/
def proposeFlatter (b : Bracket α) (low high : α) : Except (Breakdown α) (Proposal α) := do
  let x := b.best
  let p := b.trial
  let t ← theta true (x.value - p.value) (p.step - x.step) x.slope p.slope
  let s := largest t x.slope p.slope
  let root := s * Scalar.sqrt (Scalar.max 0.0 (radicand t s x.slope p.slope))
  let gamma := if x.step < p.step then -root else root
  let ratio := (gamma - p.slope + t) / (gamma + (x.slope - p.slope) + gamma)
  let cubic :=
    if ratio < 0.0 && !(gamma == 0.0) then p.step + ratio * (x.step - p.step)
    else if x.step < p.step then high
    else low
  let near := Scalar.abs (p.step - cubic)
  let far := Scalar.abs (p.step - b.secant)
  let step :=
    if b.closed then (if near < far then cubic else b.secant)
    else if far < near then cubic else b.secant
  pure ⟨step, true, b.closed⟩

/-- The slope did not fall. -/
def proposeSteeper (b : Bracket α) (low high : α) : Except (Breakdown α) (Proposal α) :=
  let x := b.best
  let y := b.other
  let p := b.trial
  if b.closed then do
    let t ← theta false (p.value - y.value) (y.step - p.step) y.slope p.slope
    let s := largest t y.slope p.slope
    let root := s * Scalar.sqrt (radicand t s y.slope p.slope)
    let gamma := if y.step < p.step then -root else root
    let ratio := (gamma - p.slope + t) / (gamma - p.slope + gamma + y.slope)
    pure ⟨p.step + ratio * (y.step - p.step), false, true⟩
  else pure ⟨if x.step < p.step then high else low, false, false⟩

/-- The next interval and trial between `low` and `high`. Where the trial lies outside the interval
or uphill of the best step, or the limits are out of order, there is none. -/
def refine (b : Bracket α) (low high : α) : Except (Breakdown α) (Option (Bracket α)) :=
  let x := b.best
  let y := b.other
  let p := b.trial
  if (b.closed && (p.step ≤ Scalar.min x.step y.step || Scalar.max x.step y.step ≤ p.step)) ||
      0.0 ≤ x.slope * (p.step - x.step) || high < low then
    .ok none
  else do
    let turn := p.slope * (x.slope / Scalar.abs x.slope)
    let proposal ←
      if x.value < p.value then b.proposeRise
      else if turn < 0.0 then b.proposeTurn
      else if Scalar.abs p.slope < Scalar.abs x.slope then b.proposeFlatter low high
      else b.proposeSteeper low high
    let rose : Bool := x.value < p.value
    let best := if rose then x else p
    let other := if rose then p else if turn < 0.0 then x else y
    let inside := Scalar.max low (Scalar.min high proposal.step)
    let kept := best.step + 0.66 * (other.step - best.step)
    let step :=
      if proposal.closed && proposal.bounded then
        if best.step < other.step then Scalar.min inside kept else Scalar.max inside kept
      else inside
    pure (some ⟨best, other, { p with step := step }, proposal.closed⟩)

end Bracket

end NonlinearProgram
