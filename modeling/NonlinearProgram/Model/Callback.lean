import NonlinearProgram.Problem

/-!
# Callbacks of a model

What a request hands over to be called: an objective, where its gradient comes from, and
constraints, each with the parameters that it receives beside the point.

An objective is a callback for the value alone, or one for value and gradient together. The
gradient of the first kind is given by a callback of its own or left to differences; that of the
second kind comes with the value. `Evaluator` has one constructor for each of these three ways,
and `Evaluator.pair?` refuses every other pairing. Second derivatives can be named in a request
only to be refused.

A constraint is a vector-valued callback whose values are to be zero, or not below zero. How many
values it has is known only from calling it: `Constraint.probe` calls each constraint once at a
point, and from the numbers of values it sets up the bounds of the stacked rows.
-/

namespace NonlinearProgram

/-! ## Parameters

The fixed arguments that a callback receives beside the point: some by position, some by name.
The readers that expect a kind of value fail with a fault that names the argument; one asked for
by position is named by `#` and its index. -/

/-- The value of a parameter. -/
inductive Parameter (α : Type) where
  | scalar (value : α)
  | vector (values : Point α)
  | text (value : String)

/-- The parameters of a callback. -/
structure Parameters (α : Type) where
  positional : List (Parameter α) := []
  named : Table (Parameter α) := ∅

namespace Parameter

variable {α : Type}

/-- The number under a name, if the value is one. -/
def toScalar (name : String) : Parameter α → Except (Fault α) α
  | .scalar value => .ok value
  | _ => .error (.argumentKind name "scalar")

/-- The vector under a name, if the value is one. -/
def toVector (name : String) : Parameter α → Except (Fault α) (Point α)
  | .vector values => .ok values
  | _ => .error (.argumentKind name "vector")

end Parameter

namespace Parameters

variable {α : Type}

instance : EmptyCollection (Parameters α) := ⟨{}⟩

/-- One more parameter behind those given by position. -/
def push (p : Parameters α) (value : Parameter α) : Parameters α :=
  { p with positional := p.positional ++ [value] }

/-- A parameter under a name, in place of an earlier one. -/
def set (p : Parameters α) (name : String) (value : Parameter α) : Parameters α :=
  { p with named := p.named.insert name value }

/-- The named parameters of `q` over those of `p`. -/
def mergeNamed (p q : Parameters α) : Parameters α := { p with named := p.named.union q.named }

/-- The number of parameters given by position. -/
def size (p : Parameters α) : Nat := p.positional.length

/-- Whether there are no parameters at all. -/
def isEmpty (p : Parameters α) : Bool := p.positional.isEmpty && p.named.isEmpty

/-- The parameter at a position. -/
def get? (p : Parameters α) (index : Nat) : Option (Parameter α) := p.positional[index]?

/-- The parameter under a name. -/
def named? (p : Parameters α) (name : String) : Option (Parameter α) := p.named.get? name

/-- Reads a parameter that has to be there. -/
def require {β : Type} (name : String) (read : String → Parameter α → Except (Fault α) β) :
    Option (Parameter α) → Except (Fault α) β
  | some value => read name value
  | none => .error (.missingArgument name)

/-- The number at a position. -/
def scalar (p : Parameters α) (index : Nat) : Except (Fault α) α :=
  require s!"#{index}" Parameter.toScalar (p.get? index)

/-- The vector at a position. -/
def vector (p : Parameters α) (index : Nat) : Except (Fault α) (Point α) :=
  require s!"#{index}" Parameter.toVector (p.get? index)

/-- The number under a name. -/
def namedScalar (p : Parameters α) (name : String) : Except (Fault α) α :=
  require name Parameter.toScalar (p.named? name)

/-- The vector under a name. -/
def namedVector (p : Parameters α) (name : String) : Except (Fault α) (Point α) :=
  require name Parameter.toVector (p.named? name)

end Parameters

/-! ## Objectives and their gradients -/

/-- A function of a request, over a state `σ` that it may change. -/
abbrev Callback (α σ β : Type) : Type := Point α → Parameters α → Eval α σ β

/-- An objective: the value alone, or value and gradient. -/
inductive Objective (α σ : Type) where
  | scalar (value : Callback α σ α)
  | combined (both : Callback α σ (α × Point α))

/-- Where the gradient of an objective comes from. -/
inductive Gradient (α σ : Type) where
  | missing
  | combined
  | explicit (gradient : Callback α σ (Point α))

/-- Second derivatives, as a matrix or as its product with a direction. -/
structure SecondOrder (α σ : Type) where
  hessian : Option (Callback α σ (Matrix α)) := none
  product : Option (Point α → Callback α σ (Point α)) := none

/-- An objective with its gradient. -/
inductive Evaluator (α σ : Type) where
  /-- The gradient is left to differences. -/
  | differences (value : Callback α σ α)
  /-- The gradient has a callback of its own. -/
  | separate (value : Callback α σ α) (gradient : Callback α σ (Point α))
  /-- The gradient comes with the value. -/
  | combined (both : Callback α σ (α × Point α))

variable {α σ : Type}

/-- The form of an objective. -/
def Objective.form : Objective α σ → String
  | .scalar _ => "scalar"
  | .combined _ => "combined"

/-- The form of a gradient. -/
def Gradient.form : Gradient α σ → String
  | .missing => "missing"
  | .combined => "combined"
  | .explicit _ => "explicit"

/-- Whether a second derivative is supplied. -/
def SecondOrder.supplied (s : SecondOrder α σ) : Bool := s.hessian.isSome || s.product.isSome

/-- No second derivative is taken; the matrix is refused before the product. -/
def SecondOrder.check (s : SecondOrder α σ) : Except (Fault α) Unit :=
  if s.hessian.isSome then .error (.unsupported "hess")
  else if s.product.isSome then .error (.unsupported "hessp")
  else .ok ()

/-- The evaluator of an objective and a gradient that go together. -/
def Evaluator.pair? : Objective α σ → Gradient α σ → Except (Fault α) (Evaluator α σ)
  | .scalar value, .missing => .ok (.differences value)
  | .scalar value, .explicit gradient => .ok (.separate value gradient)
  | .combined both, .combined => .ok (.combined both)
  | objective, gradient => .error (.unpairedGradient objective.form gradient.form)

/-! ## Constraints -/

/-- Whether the values of a constraint are to be zero or not below zero. -/
inductive ConstraintKind where
  | equality
  | inequality
  deriving DecidableEq, Repr

namespace ConstraintKind

/-- The tag by which a request names a kind. -/
def tag : ConstraintKind → String
  | equality => "eq"
  | inequality => "ineq"

/-- The kind that a tag names. -/
def ofTag {α : Type} (tag : String) : Except (Fault α) ConstraintKind :=
  if tag = "eq" then .ok equality
  else if tag = "ineq" then .ok inequality
  else .error (.unknownKind tag)

/-- The upper bound of the values; the lower one is zero for both kinds. -/
def upper {α : Type} [Scalar α] : ConstraintKind → α
  | equality => 0.0
  | inequality => Box.limit

end ConstraintKind

/-- A vector-valued constraint with its own parameters. -/
structure Constraint (α σ : Type) where
  kind : ConstraintKind
  value : Callback α σ (Point α)
  derivative : Option (Callback α σ (Matrix α)) := none
  parameters : Parameters α := ∅

/-- The bounds of stacked rows, and the number of rows of each constraint. -/
structure RowBounds (α : Type) where
  lower : Point α
  upper : Point α
  arities : List Nat

/-- The number of rows. -/
def RowBounds.size (b : RowBounds α) : Nat := b.lower.length

/-- The bounds of rows of the given kinds and numbers. -/
def RowBounds.ofArities [Scalar α] (kinds : List ConstraintKind) (arities : List Nat) :
    RowBounds α where
  lower := arities.flatMap fun m ↦ List.replicate m 0.0
  upper := (kinds.zip arities).flatMap fun p ↦ List.replicate p.2 p.1.upper
  arities := arities

/-- The values of a constraint at a point. -/
def Constraint.eval (c : Constraint α σ) (x : Point α) : Eval α σ (Point α) :=
  c.value x c.parameters

/-- Calls each constraint at a point, one after the other, for its number of values. -/
def Constraint.probe [Scalar α] (cs : List (Constraint α σ)) (x : Point α) :
    Eval α σ (RowBounds α) := do
  let arities ← cs.mapM fun c ↦ do
    let values ← c.eval x
    pure values.length
  pure (.ofArities (cs.map Constraint.kind) arities)

end NonlinearProgram
