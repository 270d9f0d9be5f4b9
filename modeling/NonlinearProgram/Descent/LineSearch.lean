import NonlinearProgram.Descent.Cubic

/-!
# Line search

From a point, along a direction in which the function falls, `LineSearch.run` looks for a step with
sufficient decrease and a slope that is flat enough: `f ≤ f₀ + 10⁻⁴ t f₀'` and `|f'| ≤ -0.9 f₀'`. It
keeps an interval of uncertainty, refined by safeguarded cubic steps, and cuts the interval where
two refinements do not shrink it to two thirds. In a first stage, until the decrease is sufficient
and the slope not too steep, the refinement works on the function less its required decrease.

The search also ends, with the last trial, where the interval has become too small, the refinement
found no step, or the step meets one of its limits. The number of trials is bounded by `trials`.
-/

namespace NonlinearProgram

namespace LineSearch

variable {α : Type} [Scalar α]

/-- The largest number of trials, the largest count of 64 bits. A search that no step ends goes on
for as long as the function is answered. -/
def trials : Nat := UInt64.size - 1

/-- The part of the slope at the start that a step has to gain. -/
def decrease : α := 1e-4

/-- The part of the slope at the start that may remain. -/
def curvature : α := 0.9

/-- The relative width at which an interval counts as a point. -/
def resolution : α := 1e-10

/-- The factor by which a step may grow beyond the last one. -/
def expansion : α := 4.0

/-- The smallest step, `2 ^ -26`. -/
def least : α := 1.490116119384765625e-8

/-- The largest step. -/
def most : α := Scalar.infinity

/-- The spacing of numbers at one, `2 ^ -52`. -/
def spacing : α := 2.220446049250313080847263336181640625e-16

/-- Where a search starts: the point, the direction, and value and slope at the start. -/
structure Line (α : Type) where
  origin : Point α
  direction : Point α
  value : α
  slope : α

/-- The point at a step along the line. -/
def Line.point (l : Line α) (t : α) : Point α := l.origin.addScaled t l.direction

/-- The slope of the required decrease. -/
def Line.required (l : Line α) : α := decrease * l.slope

/-- The value that is low enough at a step. -/
def Line.enough (l : Line α) (t : α) : α := l.value + t * l.required

/-- The state of a search. -/
structure State (α : Type) where
  bracket : Bracket α
  /-- Whether the first stage lasts. -/
  first : Bool
  /-- Whether the last refinement found a step. -/
  refined : Bool
  width : α
  /-- The width before the last one. -/
  earlier : α

/-- The state before the first trial, at step one. -/
def Line.start (l : Line α) : State α where
  bracket :=
    { best := ⟨0.0, l.value, l.slope⟩
      other := ⟨0.0, l.value, l.slope⟩
      trial := ⟨1.0, Scalar.undefined, Scalar.undefined⟩
      closed := false }
  first := true
  refined := true
  width := most - least
  earlier := 2.0 * (most - least)

/-- The limits of the next step: the interval, or a multiple of the last move. -/
def limits (b : Bracket α) : α × α :=
  if b.closed then (Scalar.min b.best.step b.other.step, Scalar.max b.best.step b.other.step)
  else (b.best.step, b.trial.step + expansion * (b.trial.step - b.best.step))

/-- Whether the interval is known and has become a point. -/
def narrow (b : Bracket α) (low high : α) : Bool := b.closed && high - low ≤ resolution * high

/-- Whether a step lies on or beyond the ends of a known interval. -/
def outside (b : Bracket α) (t low high : α) : Bool := b.closed && (t ≤ low || high ≤ t)

/-- The step to try: kept between the smallest and the largest step, and the best one so far where
the search is about to end. -/
def State.step (s : State α) : α :=
  let (low, high) := limits s.bracket
  let t := Scalar.min (Scalar.max s.bracket.trial.step least) most
  if outside s.bracket t low high || narrow s.bracket low high || !s.refined then
    s.bracket.best.step
  else t

/-- Whether the search ends with a trial. -/
def State.finished (s : State α) (l : Line α) (trial : Sample α) : Bool :=
  let (low, high) := limits s.bracket
  let t := trial.step
  let enough := l.enough t
  outside s.bracket t low high || !s.refined ||
    (Scalar.abs (t - most) < spacing && trial.value ≤ enough && trial.slope ≤ l.required) ||
    (Scalar.abs (t - least) < spacing && (enough < trial.value || l.required ≤ trial.slope)) ||
    narrow s.bracket low high ||
    (trial.value ≤ enough && Scalar.abs trial.slope ≤ curvature * (-l.slope))

/-- A sample less the required decrease. -/
def lessen (l : Line α) (s : Sample α) : Sample α :=
  ⟨s.step, s.value - s.step * l.required, s.slope - l.required⟩

/-- An end of the interval with the required decrease put back, at the step that the refinement
gave it. -/
def restore (l : Line α) (step : α) (s : Sample α) : Sample α :=
  ⟨step, s.value + step * l.required, s.slope + l.required⟩

/-- Refines the interval with a trial, on the function itself. -/
def refinePlain (b : Bracket α) (trial : Sample α) (low high : α) :
    Except (Breakdown α) (Bracket α × Bool) := do
  let start : Bracket α := { b with trial := trial }
  match ← start.refine low high with
  | some next => pure (next, true)
  | none => pure (start, false)

/-- Refines the interval with a trial, on the function less its required decrease. -/
def refineLessened (l : Line α) (b : Bracket α) (trial : Sample α) (low high : α) :
    Except (Breakdown α) (Bracket α × Bool) := do
  let start : Bracket α := ⟨lessen l b.best, lessen l b.other, lessen l trial, b.closed⟩
  let (next, refined) ← match ← start.refine low high with
    | some next => pure (next, true)
    | none => pure (start, false)
  pure (⟨restore l next.best.step b.best, restore l next.other.step b.other, next.trial,
    next.closed⟩, refined)

/-- The state after a trial that does not end the search. -/
def State.advance (s : State α) (l : Line α) (trial : Sample α) :
    Except (Breakdown α) (State α) := do
  let (low, high) := limits s.bracket
  let enough := l.enough trial.step
  let first := s.first &&
    !(trial.value ≤ enough && Scalar.min decrease curvature * l.slope ≤ trial.slope)
  let (b, refined) ←
    if first && trial.value ≤ s.bracket.trial.value && enough < trial.value then
      refineLessened l s.bracket trial low high
    else refinePlain s.bracket trial low high
  if b.closed then
    let width := Scalar.abs (b.other.step - b.best.step)
    let half := b.best.step + 0.5 * (b.other.step - b.best.step)
    let b := if 0.66 * s.earlier ≤ width then { b with trial := { b.trial with step := half } } else b
    pure ⟨b, first, refined, width, s.width⟩
  else pure ⟨b, first, refined, s.width, s.earlier⟩

/-- Tries steps until one ends the search; the point reached and its cost. -/
def loop (l : Line α) : Nat → State α → Search α (Point α × α)
  | 0, _ => throw .exhausted
  | fuel + 1, s => do
    let t := s.step
    let x := l.point t
    let value ← Search.cost x
    let g ← Search.gradient x
    let trial : Sample α := ⟨t, value, l.direction.dot g⟩
    if s.finished l trial then pure (x, value)
    else
      match s.advance l trial with
      | .ok next => loop l fuel next
      | .error cause => throw cause

/-- Searches from `x` with gradient `g` and cost `f` along `d`. An infinite cost is asked for
again. -/
def run (x g d : Point α) (f : α) : Search α (Point α × α) := do
  let value ←
    if Scalar.isFinite f || Scalar.isUndefined f then pure f else Search.cost x
  let slope := g.dot d
  if 0.0 ≤ slope then throw .ascent
  let l : Line α := ⟨x, d, value, slope⟩
  loop l trials l.start

end LineSearch

end NonlinearProgram
