import NonlinearProgram.Fault

/-!
# Forward differences

First derivatives from values alone: `(f (x + h eⱼ) - f x) / h` for each variable `j`, with `n + 1`
evaluations one after the other, at `x` first. A vector-valued function gives one column a
variable.

## Two ways to probe

With a fixed step the evaluations are made one by one and the first fault ends them. There is one
probe for all of them: a variable is moved in it before the function is called and put back behind
the call (`Forward.inPlace`).

With the automatic step they are made by a routine that knows nothing of faults: it runs over a
function that always answers. Such a function is made from a fallible one by parking its first fault
beside the state; from then on the function is not called any more and an undefined value stands for
its answers. After the sweep a parked fault is the outcome.

## Representation

Any `Forward.Routine` can take differences with the automatic step. What is relied on are its laws,
which say where a function is evaluated, in which order, and what is made of the values;
`Routine.standard` is the routine that is written down by them.
-/

namespace NonlinearProgram

/-- The choice of a difference step. -/
inductive Step (α : Type) where
  | fixed (h : α)
  | auto

namespace Step

variable {α : Type} [Scalar α]

/-- The square root of the spacing of numbers at one, `2 ^ -26`. -/
def automatic : α := 1.490116119384765625e-8

/-- The step where none is chosen. -/
def standard : Step α := .fixed 1e-8

/-- The length of the step. -/
def size : Step α → α
  | fixed h => h
  | auto => automatic

/-- A fixed step is positive and finite. -/
def check : Step α → Except (Fault α) Unit
  | fixed h => Check.step h
  | auto => .ok ()

end Step

namespace Forward

variable {α σ : Type} [Scalar α]

/-- The difference quotients of two vectors. -/
def quotients (h : α) (moved start : Point α) : Point α :=
  List.zipWith (fun a b ↦ (a - b) / h) moved start

/-! ## Fixed step -/

/-- Evaluates with one variable of the probe after the other moved by the step. A variable is put
back before the next one is moved. -/
def inPlace {β : Type} (act : Point α → Eval α σ β) (h : α) (probe : Point α) :
    List Nat → Eval α σ (List β)
  | [] => pure []
  | j :: js => do
    let kept := probe.coord j
    let moved := probe.set j (kept + h)
    let answer ← act moved
    let answers ← inPlace act h (moved.set j kept) js
    pure (answer :: answers)

/-- The gradient with a fixed step. -/
def fixedGradient (f : Point α → Eval α σ α) (x : Point α) (h : α) : Eval α σ (Point α) := do
  let start ← f x
  inPlace (fun probe ↦ do
    let moved ← f probe
    pure ((moved - start) / h)) h x (List.range x.length)

/-- The derivative of a vector-valued function with a fixed step. A function that changes its
number of values on the way is at fault. -/
def fixedJacobian (c : Point α → Eval α σ (Point α)) (x : Point α) (h : α) :
    Eval α σ (Matrix α) := do
  let start ← c x
  let columns ← inPlace (fun probe ↦ do
    let moved ← c probe
    Eval.ofExcept (Check.arity moved.length 0 start.length)
    pure (quotients h moved start)) h x (List.range x.length)
  pure (.ofColumns start.length columns)

/-! ## Automatic step -/

/-- The values at `x` and at `x + h eⱼ` for each `j`, of a function that always answers. -/
def sweep {β τ : Type} (f : Point α → StateM τ β) (x : Point α) (h : α) :
    StateM τ (β × List β) := do
  let start ← f x
  let moved ← (List.range x.length).mapM fun j ↦ f (x.shift j h)
  pure (start, moved)

/-- The difference quotients of the numbers at the moved points. -/
def sweepQuotients (start : α) (moved : List α) : Point α :=
  moved.map fun value ↦ (value - start) / Step.automatic

/-- The difference quotients of the vectors at the moved points, a row for each of them. They are
read at the places that the vector at the start has. -/
def sweepRows (start : Point α) (moved : List (Point α)) : Matrix α where
  width := start.length
  rows := moved.map fun values ↦ (List.range start.length).map fun i ↦
    (values.coord i - start.coord i) / Step.automatic

/-- A routine for differences of functions that always answer. It evaluates at the point and then
with each variable moved by the automatic step, in their order. Of vectors it gives a row for each
variable. -/
structure Routine (α : Type) [Scalar α] where
  gradient {τ : Type} (f : Point α → StateM τ α) (x : Point α) : StateM τ (Point α)
  jacobian {τ : Type} (c : Point α → StateM τ (Point α)) (x : Point α) : StateM τ (Matrix α)
  gradient_eq {τ : Type} (f : Point α → StateM τ α) (x : Point α) :
    gradient f x = do
      let (start, moved) ← sweep f x Step.automatic
      pure (sweepQuotients start moved)
  jacobian_eq {τ : Type} (c : Point α → StateM τ (Point α)) (x : Point α) :
    jacobian c x = do
      let (start, moved) ← sweep c x Step.automatic
      pure (sweepRows start moved)

/-- The routine that is a sweep and the quotients of what it met. -/
def Routine.standard : Routine α where
  gradient f x := do
    let (start, moved) ← sweep f x Step.automatic
    pure (sweepQuotients start moved)
  jacobian c x := do
    let (start, moved) ← sweep c x Step.automatic
    pure (sweepRows start moved)
  gradient_eq _ _ := rfl
  jacobian_eq _ _ := rfl

/-- A state beside the first fault met and the first number of values seen. -/
structure Parked (α σ : Type) where
  fault : Option (Fault α)
  arity : Option Nat
  state : σ

/-- Nothing parked yet. -/
def Parked.start (s : σ) : Parked α σ := ⟨none, none, s⟩

/-- The outcome of a sweep: the parked fault if there is one. -/
def Parked.outcome {β : Type} (p : Parked α σ) (value : β) : Except (Fault α) β × σ :=
  match p.fault with
  | some fault => (.error fault, p.state)
  | none => (.ok value, p.state)

/-- A fallible number-valued function as one that always answers. -/
def parkScalar (f : Point α → Eval α σ α) (x : Point α) : StateM (Parked α σ) α := fun p ↦
  match p.fault with
  | some _ => (Scalar.undefined, p)
  | none =>
    match f x p.state with
    | (.ok value, s) => (value, { p with state := s })
    | (.error fault, s) => (Scalar.undefined, { p with fault := some fault, state := s })

/-- As many undefined values as the first answer had. -/
def Parked.blank (p : Parked α σ) : Point α :=
  List.replicate (p.arity.getD 0) Scalar.undefined

/-- A fallible vector-valued function as one that always answers, with as many values as at
first. -/
def parkVector (c : Point α → Eval α σ (Point α)) (x : Point α) :
    StateM (Parked α σ) (Point α) := fun p ↦
  match p.fault with
  | some _ => (p.blank, p)
  | none =>
    match c x p.state with
    | (.error fault, s) => (p.blank, { p with fault := some fault, state := s })
    | (.ok values, s) =>
      match p.arity with
      | none => (values, { p with arity := some values.length, state := s })
      | some k =>
        if k = values.length then (values, { p with state := s })
        else
          (p.blank, { p with fault := some (.arityChanged 0 k values.length), state := s })

/-- The gradient with the automatic step, by a routine. -/
def autoGradient (routine : Routine α) (f : Point α → Eval α σ α) (x : Point α) :
    Eval α σ (Point α) := fun s ↦
  let (slopes, p) := routine.gradient (parkScalar f) x (Parked.start s)
  p.outcome slopes

/-- The derivative of a vector-valued function with the automatic step, by a routine. The rows that
the routine gives are columns of the derivative. -/
def autoJacobian (routine : Routine α) (c : Point α → Eval α σ (Point α)) (x : Point α) :
    Eval α σ (Matrix α) := fun s ↦
  let (rows, p) := routine.jacobian (parkVector c) x (Parked.start s)
  p.outcome rows.transpose

/-! ## Either step -/

/-- The gradient of a number-valued function. -/
def gradient (f : Point α → Eval α σ α) (x : Point α) : Step α → Eval α σ (Point α)
  | .fixed h => fixedGradient f x h
  | .auto => autoGradient .standard f x

/-- The derivative of a vector-valued function. -/
def jacobian (c : Point α → Eval α σ (Point α)) (x : Point α) : Step α → Eval α σ (Matrix α)
  | .fixed h => fixedJacobian c x h
  | .auto => autoJacobian .standard c x

end Forward

end NonlinearProgram
