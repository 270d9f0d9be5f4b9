import NonlinearProgram.Remark

/-!
# Problems and solvers

The boundary between a nonlinear program and the method that solves it.

A `Problem` is what a solver may ask: the objective, its gradient, the stacked constraint values,
their stacked derivative, and whether to go on after an iteration. Each operation may fail and may
change the state `σ` of the problem, so an answer can differ from call to call. A `Backend` sets up
a solver for a problem and its bounds, takes settings one at a time, and runs it from a point.
-/

namespace NonlinearProgram

/-! ## Bounds

A request gives a lower and an upper bound for each variable; a solver receives two lists of
bounds. Since a solver cannot represent a missing side, bounds are cut off at `Box.limit` in
magnitude, and a bound of that magnitude counts as absent. -/

/-- The bounds of variables and rows. A list of variable bounds may be missing altogether. -/
structure Bounds (α : Type) where
  lower : Option (Point α)
  upper : Option (Point α)
  rowLower : Point α
  rowUpper : Point α

namespace Box

variable {α : Type} [Scalar α]

/-- A bound of this magnitude or more stands for no bound. -/
def limit : α := 1e19

/-- The bounds of variable `index`, cut off at the limit. A pair that leaves no value, or that is
not defined on both sides, is refused. -/
def side (index : Nat) (pair : α × α) : Except (Fault α) (α × α) :=
  if Scalar.isUndefined pair.1 || Scalar.isUndefined pair.2 || pair.2 < pair.1 then
    .error (.emptyBound index pair.1 pair.2)
  else .ok (Scalar.max pair.1 (-limit), Scalar.min pair.2 limit)

/-- The bounds of the variables from `index` on; the first pair that is refused decides. -/
def sides : Nat → List (α × α) → Except (Fault α) (List (α × α))
  | _, [] => .ok []
  | index, pair :: pairs => do
    let first ← side index pair
    let others ← sides (index + 1) pairs
    pure (first :: others)

/-- The two lists of bounds of `n` variables, both missing where none are given. -/
def ofPairs (pairs : Option (List (α × α))) (n : Nat) :
    Except (Fault α) (Option (Point α) × Option (Point α)) :=
  match pairs with
  | none => .ok (none, none)
  | some pairs => do
    Check.count n pairs.length
    let cut ← sides 0 pairs
    pure (some (cut.map Prod.fst), some (cut.map Prod.snd))

end Box

/-! ## Problems -/

/-- What a solver reports after an iteration. -/
structure Report (α : Type) where
  /-- The mode of the solver. -/
  mode : Nat
  /-- The number of the iteration, counted from one. -/
  iteration : Nat
  objective : α
  /-- The largest violation of a constraint or bound. -/
  violation : α
  /-- The norm of the gradient in which the inner descent stopped. -/
  gradient : α
  /-- The inverse of the penalty. -/
  barrier : α
  /-- The length of the last step. -/
  step : α
  regularization : α
  dualStep : α
  primalStep : α
  /-- The number of inner iterations. -/
  trials : Nat

/-- The operations of a nonlinear program, over a state that they may change. -/
structure Problem (α σ : Type) where
  objective : Point α → Eval α σ α
  gradient : Point α → Eval α σ (Point α)
  /-- The values of all constraints, one below the other. -/
  constraints : Point α → Eval α σ (Point α)
  /-- The derivative of all constraints, one row a value. -/
  jacobian : Point α → Eval α σ (Matrix α)
  /-- Hears of an iteration and answers whether to go on. -/
  intermediate : Report α → StateM σ Bool
  /-- Keeps a remark. -/
  note : Remark α → StateM σ Unit

/-- What a solver says about the point it returns. -/
structure Summary (α : Type) where
  status : Int
  message : String
  objective : α
  point : Point α
  /-- The stacked constraint values at the point. -/
  rows : Point α
  rowMultipliers : Point α
  lowerMultipliers : Point α
  upperMultipliers : Point α

/-- The summary that knows of no constraint values and multipliers. -/
def Summary.bare {α : Type} (status : Int) (message : String) (objective : α) (point : Point α) :
    Summary α :=
  ⟨status, message, objective, point, [], [], [], []⟩

/-- A way to solve problems whose state is `σ`. -/
structure Backend (α σ : Type) where
  /-- A solver that was set up for one problem. -/
  Solver : Type
  /-- Sets up a solver for `n` variables and `m` rows. -/
  create : (n m : Nat) → Problem α σ → Bounds α → Eval α σ Solver
  /-- Hands one setting to a solver. -/
  configure : Solver → String → Setting α → StateM σ (Except (Rejection α) Solver)
  /-- Runs a solver from a point. -/
  solve : Solver → Point α → Eval α σ (Point α × Summary α)

/-- An operation on part of a state, on the whole of it. -/
def Eval.focus {α σ τ β : Type} (get : τ → σ) (set : σ → τ → τ) (act : Eval α σ β) :
    Eval α τ β := fun t ↦
  let (answer, s) := act (get t)
  (answer, set s t)

end NonlinearProgram
