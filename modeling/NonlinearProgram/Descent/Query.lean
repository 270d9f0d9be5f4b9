import NonlinearProgram.Fault

/-!
# Optimizers as queries

An optimizer sees a function only through its values and gradients. `Query` is such an optimizer
as data: it is finished, or it asks for one of the two at a point and goes on with the answer,
which may be a fault. A query is a well-founded tree, so an optimizer of this type asks finitely
often, whatever it is told; and since it has no other access to the problem, a statement about all
queries is one about all optimizers.

`Query.run` answers the questions one after the other. `Breakdown` lists what can stop a line
search, and with it a descent, before it meets its tolerances: only the first of these comes from
the problem, the others are about the search itself.
-/

namespace NonlinearProgram

/-! ## Breakdowns -/

/-- Why a line search gave up. -/
inductive Breakdown (α : Type) where
  /-- The merit could not be evaluated at a trial point. -/
  | evaluation (fault : Fault α)
  /-- The merit does not decrease along the search direction. -/
  | ascent
  /-- A cubic fit met a value that is not finite; `quoted` tells how the search names itself. -/
  | notFinite (quoted : Bool)
  /-- The trial limit was reached. -/
  | exhausted

/-! ## Queries -/

/-- An adaptive computation that asks for costs and gradients. -/
inductive Query (α β : Type) where
  | pure (result : β)
  | cost (x : Point α) (next : Except (Fault α) α → Query α β)
  | gradient (x : Point α) (next : Except (Fault α) (Point α) → Query α β)

namespace Query

variable {α β γ σ : Type}

/-- Goes on with the result of a query. -/
def bind : Query α β → (β → Query α γ) → Query α γ
  | pure result, f => f result
  | cost x next, f => cost x fun answer ↦ (next answer).bind f
  | gradient x next, f => gradient x fun answer ↦ (next answer).bind f

instance : Monad (Query α) where
  pure := pure
  bind := bind

/-- Answers a query by computations on a state. -/
def run (costs : Point α → Eval α σ α) (gradients : Point α → Eval α σ (Point α)) :
    Query α β → StateM σ β
  | pure result => fun s ↦ (result, s)
  | cost x next => fun s ↦
    let (answer, s) := costs x s
    run costs gradients (next answer) s
  | gradient x next => fun s ↦
    let (answer, s) := gradients x s
    run costs gradients (next answer) s

/-- Answering a query that goes on is answering both parts, one after the other. -/
theorem run_bind (costs : Point α → Eval α σ α) (gradients : Point α → Eval α σ (Point α))
    (q : Query α β) (f : β → Query α γ) (s : σ) :
    (q.bind f).run costs gradients s =
      (f (q.run costs gradients s).1).run costs gradients (q.run costs gradients s).2 := by
  induction q generalizing s with
  | pure result => rfl
  | cost x next ih => exact ih _ _
  | gradient x next ih => exact ih _ _

end Query

/-- A query that may break down. -/
abbrev Search (α : Type) : Type → Type := ExceptT (Breakdown α) (Query α)

namespace Search

variable {α : Type}

/-- Asks for the cost at a point; a fault breaks the search down. -/
def cost (x : Point α) : Search α α :=
  ExceptT.mk (.cost x fun answer ↦ .pure (answer.mapError .evaluation))

/-- Asks for the gradient at a point; a fault breaks the search down. -/
def gradient (x : Point α) : Search α (Point α) :=
  ExceptT.mk (.gradient x fun answer ↦ .pure (answer.mapError .evaluation))

end Search

end NonlinearProgram
