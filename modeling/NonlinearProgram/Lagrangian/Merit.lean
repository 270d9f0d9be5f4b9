import NonlinearProgram.Lagrangian.Term

/-!
# The merit function

For fixed multipliers `λ` and a fixed penalty `ρ` the merit of a point is the objective plus one
smooth contribution a term: `λ s + ρ/2 s²` for an equality and `(max 0 (λ - ρ s)² - λ²) / (2 ρ)`
for an inequality. Its gradient adds to that of the objective the gradient of each `s`, weighted by
`λ + ρ s` or `-max 0 (λ - ρ s)`.

`Merit.costAt` and `Merit.gradientAt` are these functions of the answers of a problem;
`Merit.cost` and `Merit.gradient` ask the problem. Rows are asked for only where there are any.

An optimizer may hide a failed evaluation. So evaluations are watched: `Watched` keeps the first
fault of any of them beside the state of the problem, whatever the optimizer makes of it.
-/

namespace NonlinearProgram

/-- The state of a problem beside the first fault that it raised. -/
structure Watched (α σ : Type) where
  failure : Option (Fault α)
  problem : σ

/-- An operation of the problem under watch. -/
def Watched.watch {α σ β : Type} (act : Eval α σ β) : Eval α (Watched α σ) β := fun w ↦
  match act w.problem with
  | (.ok answer, s) => (.ok answer, { w with problem := s })
  | (.error fault, s) => (.error fault, ⟨w.failure <|> some fault, s⟩)

/-- The augmented Lagrangian for fixed multipliers and a fixed penalty. -/
structure Merit (α : Type) where
  layout : Layout α
  lambda : List α
  rho : α

variable {α σ : Type} [Scalar α]

/-- The stacked rows at a point, where there are any. -/
def Layout.rows (l : Layout α) (p : Problem α σ) (x : Point α) : Eval α σ (Point α) :=
  if l.m = 0 then pure [] else p.constraints x

/-- The derivative of the stacked rows at a point, where there are any. -/
def Layout.slopes (l : Layout α) (p : Problem α σ) (x : Point α) : Eval α σ (Matrix α) :=
  if l.m = 0 then pure (.zeros 0 l.n) else p.jacobian x

namespace Term

/-- The contribution of a term to the merit. -/
def penalty (t : Term α) (rho l s : α) : α :=
  if t.equality then l * s + 0.5 * rho * s * s
  else (Scalar.square (Scalar.max (l - rho * s) 0.0) - l * l) / (2.0 * rho)

/-- The weight of the gradient of a term. -/
def weight (t : Term α) (rho l s : α) : α :=
  if t.equality then l + rho * s else -Scalar.max (l - rho * s) 0.0

/-- Adds the gradient of a term with a weight. A weight of zero leaves everything as it is, and a
row of one entry holds for every variable. -/
def addSlope (t : Term α) (jacobian : Matrix α) (weight : α) (g : Point α) : Point α :=
  if weight == 0.0 then g
  else
    match t.source with
    | .row j => g.addScaled (weight * t.sign) (Point.spread (jacobian.row j) g.length)
    | .coordinate i => g.modify i (· + weight * t.sign)

end Term

namespace Merit

/-- The contributions of all terms at the given distances, added in order. -/
def penalty (m : Merit α) (values : List α) : α :=
  (((m.layout.terms.zip m.lambda).zip values).map fun p ↦
    p.1.1.penalty m.rho p.1.2 p.2).foldl (· + ·) 0.0

/-- The merit of a point, from its objective and rows. -/
def costAt (m : Merit α) (x : Point α) (f : α) (rows : Point α) : α :=
  f + m.penalty (m.layout.values x rows)

/-- The gradient of the merit at a point, from the gradient of the objective, the rows and their
derivative. -/
def gradientAt (m : Merit α) (x g rows : Point α) (jacobian : Matrix α) : Point α :=
  ((m.layout.terms.zip m.lambda).zip (m.layout.values x rows)).foldl
    (fun g p ↦ p.1.1.addSlope jacobian (p.1.1.weight m.rho p.1.2 p.2) g) g

/-- The merit of a point. -/
def cost (m : Merit α) (p : Problem α σ) (x : Point α) : Eval α (Watched α σ) α := do
  let f ← Watched.watch (p.objective x)
  let rows ← Watched.watch (m.layout.rows p x)
  pure (m.costAt x f rows)

/-- The gradient of the merit at a point. -/
def gradient (m : Merit α) (p : Problem α σ) (x : Point α) :
    Eval α (Watched α σ) (Point α) := do
  let g ← Watched.watch (p.gradient x)
  let rows ← Watched.watch (m.layout.rows p x)
  let jacobian ← Watched.watch (m.layout.slopes p x)
  pure (m.gradientAt x g rows jacobian)

end Merit

end NonlinearProgram
