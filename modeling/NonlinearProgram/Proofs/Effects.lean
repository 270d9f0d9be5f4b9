import NonlinearProgram.Proofs.Checked
import NonlinearProgram.Proofs.Traced

/-!
# Effects of requests

A request deals with two parties, its callbacks and a backend, and both can see the order in which
it does so. `Request.traced` is a request whose callbacks write down their calls, and
`Backend.traced` a backend that writes down what is asked of it, in the same trace.

A backend is silent if it calls no callback of a model until it runs. To the trace of a silent
backend a solver that takes settings adds these settings (`Backend.Silent.trace_accepts`), and
constraints that are probed add their calls, up to the first one that faults
(`Constraint.mapM_tracedFrom`).
-/

namespace NonlinearProgram

variable {α σ β : Type}

/-! ## Effects

A trace is in the order in which things happened, the last one at its end. It is part of the state
of the callbacks, so that callbacks and backend write to the same one, and nothing else of a request
knows of it. -/

/-- A callback of a request. -/
inductive Callee where
  | objective
  | gradient
  | hessian
  | product
  | constraint (index : Nat)
  | derivative (index : Nat)
  deriving DecidableEq, Repr

/-- What passes between a request, its callbacks and a backend. -/
inductive Effect (α : Type) where
  /-- A callback is called. -/
  | called (callee : Callee) (x : Point α)
  /-- A solver is set up. -/
  | created (n m : Nat) (bounds : Bounds α)
  /-- A setting is handed to the solver. -/
  | configured (name : String) (value : Setting α)
  /-- The solver runs. -/
  | solved (x : Point α)

/-- A session in which one more thing has happened. -/
def Session.emit {ε : Type} (e : ε) (s : Session α (Traced ε σ)) : Session α (Traced ε σ) :=
  { s with user := s.user.emit e }

/-- A callback whose calls are written down. -/
def Callback.traced (callee : Callee) (f : Callback α σ β) :
    Callback α (Traced (Effect α) σ) β :=
  fun x p ↦ Traced.call (.called callee x) (f x p)

def Objective.traced : Objective α σ → Objective α (Traced (Effect α) σ)
  | .scalar value => .scalar (Callback.traced .objective value)
  | .combined both => .combined (Callback.traced .objective both)

def Gradient.traced : Gradient α σ → Gradient α (Traced (Effect α) σ)
  | .missing => .missing
  | .combined => .combined
  | .explicit gradient => .explicit (Callback.traced .gradient gradient)

def SecondOrder.traced (s : SecondOrder α σ) : SecondOrder α (Traced (Effect α) σ) where
  hessian := s.hessian.map (Callback.traced .hessian)
  product := s.product.map fun f direction ↦ Callback.traced .product (f direction)

def Constraint.traced (index : Nat) (c : Constraint α σ) : Constraint α (Traced (Effect α) σ) where
  kind := c.kind
  value := Callback.traced (.constraint index) c.value
  derivative := c.derivative.map (Callback.traced (.derivative index))
  parameters := c.parameters

/-- The request whose callbacks write down their calls. -/
def Request.traced (r : Request α σ) : Request α (Traced (Effect α) σ) where
  objective := r.objective.traced
  start := r.start
  parameters := r.parameters
  extra := r.extra
  gradient := r.gradient.traced
  second := r.second.traced
  constraints := r.constraints.zipIdx.map fun p ↦ p.1.traced p.2
  bounds := r.bounds
  tolerance := r.tolerance
  settings := r.settings
  step := r.step

/-! ## Backends -/

namespace Backend

/-- The backend that writes down what is asked of it. -/
def traced (b : Backend α (Session α (Traced (Effect α) σ))) :
    Backend α (Session α (Traced (Effect α) σ)) where
  Solver := b.Solver
  create n m p bounds := fun s ↦ b.create n m p bounds (s.emit (.created n m bounds))
  configure solver name value := fun s ↦
    b.configure solver name value (s.emit (.configured name value))
  solve solver x := fun s ↦ b.solve solver x (s.emit (.solved x))

/-- A backend that calls no callback of a model until it runs. -/
structure Silent [Scalar α] (b : Backend α (Session α (Traced (Effect α) σ))) : Prop where
  create : ∀ n m (model : Model α (Traced (Effect α) σ)) bounds s,
    (b.create n m model.problem bounds s).2.user.trace = s.user.trace
  configure : ∀ solver name value s,
    (b.configure solver name value s).2.user.trace = s.user.trace

/-- A silent backend leaves the trace of the settings alone. Induction on what was accepted. -/
theorem Silent.trace_accepts [Scalar α] {b : Backend α (Session α (Traced (Effect α) σ))}
    (hb : b.Silent) {entries : List (String × Setting α)} {solver last : b.traced.Solver}
    {s s' : Session α (Traced (Effect α) σ)}
    (h : b.traced.Accepts Session.note entries solver s last s') :
    s'.user.trace = s.user.trace ++ entries.map fun e ↦ .configured e.1 e.2 := by
  induction h with
  | nil => exact (List.append_nil _).symm
  | @cons name value entries solver next last s s₁ s₂ first _ ih =>
    have hconfigure : s₁.user.trace = s.user.trace ++ [.configured name value] := by
      have hkept := hb.configure solver name value
        ((Session.note (.applying name value) s).2.emit (.configured name value))
      exact (congrArg (fun ran ↦ ran.2.user.trace) first).symm.trans hkept
    rw [ih, hconfigure, List.append_assoc]
    rfl

end Backend

/-! ## What tracing leaves alone

Checks look at which callbacks there are and never at what they do. A traced request therefore
passes the same checks, with the same faults. -/

theorem SecondOrder.check_traced (s : SecondOrder α σ) :
    (s.traced.check : Except (Fault α) Unit) = s.check := by
  obtain ⟨hessian, product⟩ := s
  cases hessian <;> cases product <;> rfl

theorem SecondOrder.supplied_traced (s : SecondOrder α σ) : s.traced.supplied = s.supplied := by
  obtain ⟨hessian, product⟩ := s
  cases hessian <;> cases product <;> rfl

theorem Evaluator.ofResult?_pair?_traced (f : Objective α σ) (g : Gradient α σ) :
    Fault.ofResult? (Evaluator.pair? f.traced g.traced)
      = Fault.ofResult? (Evaluator.pair? f g) := by
  cases f <;> cases g <;> rfl

namespace Constraint

/-- The calls of the constraints `i`, `i + 1` and so on. -/
def calls (x : Point α) (i count : Nat) : List (Effect α) :=
  (List.range' i count).map fun j ↦ .called (.constraint j) x

theorem eq_of_called_mem_calls {x y : Point α} {i count : Nat} {callee : Callee}
    (h : .called callee y ∈ calls x i count) : (∃ j, callee = .constraint j) ∧ y = x := by
  obtain ⟨j, -, hj⟩ := List.mem_map.mp h
  cases hj
  exact ⟨⟨j, rfl⟩, rfl⟩

/-- The constraints from place `i` on, traced. -/
def tracedFrom (i : Nat) (cs : List (Constraint α σ)) : List (Constraint α (Traced (Effect α) σ)) :=
  (cs.zipIdx i).map fun p ↦ p.1.traced p.2

theorem map_kind_tracedFrom (i : Nat) (cs : List (Constraint α σ)) :
    (tracedFrom i cs).map kind = cs.map kind := by
  rw [tracedFrom, List.map_map]
  conv_rhs => rw [← List.zipIdx_map_fst i cs, List.map_map]
  rfl

/-- Traced constraints are called in their order until one of them faults. Induction on the
constraints, each of which adds its call to the trace. -/
theorem mapM_tracedFrom (cs : List (Constraint α σ)) (x : Point α) (i : Nat)
    (t : Traced (Effect α) σ) :
    (∃ values u, Eval.Answered (fun c : Constraint α σ ↦ c.eval x) cs t.state values u ∧
      (tracedFrom i cs).mapM (fun c ↦ c.eval x) t
        = (.ok values, ⟨t.trace ++ calls x i cs.length, u⟩)) ∨
    ∃ before c after values u fault u', cs = before ++ c :: after ∧
      Eval.Answered (fun c : Constraint α σ ↦ c.eval x) before t.state values u ∧
      c.eval x u = (.error fault, u') ∧
      (tracedFrom i cs).mapM (fun c ↦ c.eval x) t
        = (.error fault, ⟨t.trace ++ calls x i (before.length + 1), u'⟩) := by
  induction cs generalizing i t with
  | nil => exact Or.inl ⟨[], t.state, .nil _, by rw [List.length_nil, calls]; simp [tracedFrom]⟩
  | cons c cs ih =>
    have hcons : tracedFrom i (c :: cs) = c.traced i :: tracedFrom (i + 1) cs := rfl
    rw [hcons, List.mapM_cons]
    rcases hc : c.eval x t.state with ⟨fault | values, u⟩
    · have hcall : (c.traced i).eval x t
          = (.error fault, ⟨t.trace ++ [.called (.constraint i) x], u⟩) := Traced.call_of_eq hc
      refine Or.inr ⟨[], c, cs, [], t.state, fault, u, rfl, .nil _, hc, ?_⟩
      rw [Eval.bind_of_error hcall]
      rfl
    have hcall : (c.traced i).eval x t
        = (.ok values, ⟨t.trace ++ [.called (.constraint i) x], u⟩) := Traced.call_of_eq hc
    rw [Eval.bind_of_ok hcall]
    rcases ih (i + 1) ⟨t.trace ++ [.called (.constraint i) x], u⟩ with
      ⟨rest, u', hrest, hrow⟩ | ⟨before, d, after, rest, u', fault, u'', rfl, hrest, hd, hrow⟩
    · refine Or.inl ⟨values :: rest, u', .cons hc hrest, ?_⟩
      rw [Eval.bind_of_ok hrow, List.append_assoc]
      rfl
    · refine Or.inr ⟨c :: before, d, after, values :: rest, u', fault, u'', rfl, .cons hc hrest,
        hd, ?_⟩
      rw [Eval.bind_of_error hrow, List.append_assoc]
      rfl

end Constraint

end NonlinearProgram
