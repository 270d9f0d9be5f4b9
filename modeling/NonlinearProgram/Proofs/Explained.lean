import NonlinearProgram.Proofs.Replies

/-!
# Faults that the record explains

With the arities fixed, an operation of a model that is heard faults only where a reply was wrong,
and the reply is in the record by then. The record never loses anything, so that what it explains
once it explains for good.

`Session.Explained` says so of a computation over sessions with a given record. It passes through
sequences, and a check behind a call of a callback may count on the reply of that call
(`Session.explained_call`). What each operation needs of the record beforehand is the reply that
fixed the number of values of each constraint (`Accounts`), for without it a change of that number
would not show.
-/

namespace NonlinearProgram

variable {α σ β γ : Type}

/-! ## Callbacks

A callback may fail with any fault but one of configuration: such a fault is reserved for the
mistakes that a request is refused for. -/

/-- A callback does not fail with a mistake in a request. -/
def Callback.Plain (f : Callback α σ β) : Prop :=
  ∀ x p u fault, (f x p u).1 = .error fault → fault.isConfiguration = false

def Evaluator.Plain : Evaluator α σ → Prop
  | .differences value => value.Plain
  | .separate value gradient => value.Plain ∧ gradient.Plain
  | .combined both => both.Plain

structure Constraint.Plain (c : Constraint α σ) : Prop where
  value : c.value.Plain
  derivative : ∀ derivative, c.derivative = some derivative → derivative.Plain

structure Model.Plain (m : Model α σ) : Prop where
  evaluator : m.evaluator.Plain
  constraints : ∀ c ∈ m.constraints, c.Plain

theorem Callback.heard_apply (callee : Callee) (form : β → Reply α) (f : Callback α σ β)
    (x : Point α) (p : Parameters α) (t : Traced (Heard α) σ) :
    heard callee form f x p t = ((f x p t.state).1,
      ⟨t.trace ++ [⟨callee, x, Reply.of form (f x p t.state).1⟩], (f x p t.state).2⟩) := rfl

theorem Constraint.eval_heard (i : ℕ) (c : Constraint α σ) (x : Point α) :
    (c.heard i).eval x
      = Callback.heard (.constraint i) (fun v ↦ .vector v.length) c.value x c.parameters := rfl

/-! ## Computations over a record

What is heard at the end of a computation begins with what was heard before it, so evidence of a
fault is only ever added. Computations that do not call a callback are explained where their fault
is shown already, or where they have none. -/

/-- A record accounts for arities if it has a reply with each of them. -/
def Accounts (record : List (Heard α)) (a : List ℕ) : Prop :=
  ∀ i k, a[i]? = some k → ∃ x, ⟨.constraint i, x, .vector k⟩ ∈ record

/-- A record that a probe of constraints at a point has left, with the arities that it found. -/
def ProbeRecord (record : List (Heard α)) (x : Point α) (a : List ℕ) : Prop :=
  ∀ e, e ∈ record ↔ ∃ i k, a[i]? = some k ∧ e = ⟨.constraint i, x, .vector k⟩

theorem ProbeRecord.accounts {record : List (Heard α)} {x : Point α} {a : List ℕ}
    (h : ProbeRecord record x a) : Accounts record a :=
  fun i k hk ↦ ⟨x, (h _).mpr ⟨i, k, hk, rfl⟩⟩

/-- A probe that found arities shows no fault: each constraint has replied once, with values. -/
theorem ProbeRecord.not_shown {record : List (Heard α)} {x : Point α} {a : List ℕ}
    (h : ProbeRecord record x a) (n : ℕ) (fault : Fault α) : ¬Shown n record fault := by
  intro hshown
  cases hshown with
  | failed reply =>
    obtain ⟨_, _, -, heq⟩ := (h _).mp reply
    cases heq
  | gradient returned reply _ =>
    obtain ⟨_, _, -, heq⟩ := (h _).mp reply
    cases heq
    rcases returned with hcallee | hcallee <;> cases hcallee
  | values reply other length =>
    obtain ⟨i, k, hk, heq⟩ := (h _).mp reply
    obtain ⟨j, l, hl, heq'⟩ := (h _).mp other
    cases heq
    cases heq'
    exact length (Option.some.inj (hl.symm.trans hk))
  | derivative _ reply _ =>
    obtain ⟨_, _, -, heq⟩ := (h _).mp reply
    cases heq

namespace Constraint

/-- Constraints that all answered are heard in their order. Induction on the constraints. -/
theorem trace_of_answered {cs : List (Constraint α σ)} {x : Point α} {i : ℕ}
    {t t' : Traced (Heard α) σ} {values : List (Point α)}
    (h : Eval.Answered (fun p : Constraint α σ × ℕ ↦ (p.1.heard p.2).eval x) (cs.zipIdx i) t
      values t') :
    t'.trace = t.trace ++ (values.zipIdx i).map fun p ↦
      ⟨.constraint p.2, x, .vector p.1.length⟩ := by
  induction cs generalizing i t values with
  | nil =>
    cases h
    exact (List.append_nil _).symm
  | cons c cs ih =>
    rw [List.zipIdx_cons] at h
    cases h with
    | @cons _ _ v values _ t₁ _ first rest =>
      have hfirst : t₁.trace = t.trace ++ [⟨.constraint i, x, .vector v.length⟩] := by
        rw [eval_heard, Callback.heard_apply, Prod.mk.injEq] at first
        rw [← first.2, first.1]
        rfl
      rw [ih rest, hfirst, List.append_assoc, List.zipIdx_cons, List.map_cons]
      rfl

/-- Constraints that are probed leave a reply each. -/
theorem probeRecord_of_probe [Scalar α] {cs : List (Constraint α σ)} {x : Point α}
    {t t' : Traced (Heard α) σ} {rows : RowBounds α} (ht : t.trace = [])
    (h : probe (heardAll cs) x t = (.ok rows, t')) : ProbeRecord t'.trace x rows.arities := by
  rw [probe_eq] at h
  obtain ⟨values, hrow, rfl⟩ := Eval.bind_pure_eq_ok.mp h
  rw [heardAll, List.mapM_map] at hrow
  have htrace := trace_of_answered (Eval.mapM_eq_ok.mp hrow)
  have harities : ∀ i : ℕ, (values.map List.length)[i]? = values[i]?.map List.length :=
    fun i ↦ List.getElem?_map
  intro e
  rw [htrace, ht, List.nil_append]
  constructor
  · intro he
    obtain ⟨⟨v, i⟩, hv, rfl⟩ := List.mem_map.mp he
    refine ⟨i, v.length, (harities i).trans ?_, rfl⟩
    rw [List.mem_zipIdx_iff_getElem?.mp hv, Option.map_some]
  · rintro ⟨i, k, hk, rfl⟩
    obtain ⟨v, hv, rfl⟩ := Option.map_eq_some_iff.mp ((harities i).symm.trans hk)
    exact List.mem_map.mpr ⟨(v, i), List.mem_zipIdx_iff_getElem?.mpr hv, rfl⟩

end Constraint

namespace Session

/-- The arities are as given, and a record is part of what was heard. -/
structure Hears (a : Option (List ℕ)) (record : List (Heard α))
    (s : Session α (Traced (Heard α) σ)) : Prop where
  arities : s.arities = a
  record : record ⊆ s.user.trace

/-- The record shows a fault, and the fault is no mistake in the request. -/
structure Explains (n : ℕ) (s : Session α (Traced (Heard α) σ)) (fault : Fault α) : Prop where
  shown : Shown n s.user.trace fault
  plain : fault.isConfiguration = false

/-- A computation that leaves the arities alone, adds to the record, and faults where the record
explains it. -/
def Explained (n : ℕ) (a : Option (List ℕ)) (record : List (Heard α))
    (act : Eval α (Session α (Traced (Heard α) σ)) β) : Prop :=
  ∀ s, s.Hears a record → (act s).2.Hears a record ∧
    ∀ fault, (act s).1 = .error fault → (act s).2.Explains n fault

variable {n : ℕ} {a : Option (List ℕ)} {record : List (Heard α)}
  {act : Eval α (Session α (Traced (Heard α) σ)) β}

theorem explained_pure (b : β) :
    Explained n a record (pure b : Eval α (Session α (Traced (Heard α) σ)) β) :=
  fun _ hs ↦ ⟨hs, fun _ h ↦ nomatch h⟩

theorem explained_ofExcept {outcome : Except (Fault α) β}
    (h : ∀ fault, outcome = .error fault → Shown n record fault ∧ fault.isConfiguration = false) :
    Explained n a record
      (Eval.ofExcept outcome : Eval α (Session α (Traced (Heard α) σ)) β) :=
  fun _ hs ↦ ⟨hs, fun fault hfault ↦ ⟨(h fault hfault).1.mono hs.record, (h fault hfault).2⟩⟩

theorem explained_lift {act : StateM (Session α (Traced (Heard α) σ)) β}
    (h : ∀ s, (act s).2.user = s.user ∧ (act s).2.arities = s.arities) :
    Explained n a record (ExceptT.lift act) := by
  intro s hs
  refine ⟨⟨(h s).2.trans hs.arities, ?_⟩, fun _ h ↦ nomatch h⟩
  rw [Eval.lift_apply, (h s).1]
  exact hs.record

theorem explained_modify {f : Session α (Traced (Heard α) σ) → Session α (Traced (Heard α) σ)}
    (h : ∀ s, (f s).user = s.user ∧ (f s).arities = s.arities) :
    Explained n a record (modify f : Eval α (Session α (Traced (Heard α) σ)) Unit) := by
  show Explained n a record (ExceptT.lift (modify f))
  exact explained_lift h

theorem explained_countEvaluation : Explained n a record
    (countEvaluation : Eval α (Session α (Traced (Heard α) σ)) Unit) :=
  explained_modify fun _ ↦ ⟨rfl, rfl⟩

theorem explained_countGradient : Explained n a record
    (countGradient : Eval α (Session α (Traced (Heard α) σ)) Unit) :=
  explained_modify fun _ ↦ ⟨rfl, rfl⟩

theorem Explained.bind {f : β → Eval α (Session α (Traced (Heard α) σ)) γ}
    (h : Explained n a record act) (hf : ∀ b, Explained n a record (f b)) :
    Explained n a record (act >>= f) := by
  intro s hs
  obtain ⟨hheard, hfault⟩ := h s hs
  rcases hact : act s with ⟨fault | b, s₁⟩
  · rw [hact] at hheard hfault
    rw [Eval.bind_of_error hact]
    refine ⟨hheard, fun _ h ↦ ?_⟩
    cases h
    exact hfault fault rfl
  · rw [hact] at hheard
    rw [Eval.bind_of_ok hact]
    exact hf b s₁ hheard

theorem explained_mapM {ι : Type} {f : ι → Eval α (Session α (Traced (Heard α) σ)) β}
    {xs : List ι} (h : ∀ x ∈ xs, Explained n a record (f x)) :
    Explained n a record (xs.mapM f) := by
  induction xs with
  | nil => exact explained_pure []
  | cons x xs ih =>
    rw [List.forall_mem_cons] at h
    rw [List.mapM_cons]
    exact h.1.bind fun b ↦ (ih h.2).bind fun bs ↦ explained_pure (b :: bs)

/-- Computations that are the same where the arities are the given ones. -/
theorem Explained.of_eq {act' : Eval α (Session α (Traced (Heard α) σ)) β}
    (h : Explained n a record act') (heq : ∀ s, s.arities = a → act s = act' s) :
    Explained n a record act := by
  intro s hs
  rw [heq s hs.arities]
  exact h s hs

theorem explained_call {callee : Callee} {form : β → Reply α} {f : Callback α σ β}
    (hf : f.Plain) {x : Point α} {p : Parameters α}
    {next : β → Eval α (Session α (Traced (Heard α) σ)) γ}
    (hnext : ∀ b, Explained n a (⟨callee, x, form b⟩ :: record) (next b)) :
    Explained n a record (callUser (Callback.heard callee form f x p) >>= next) := by
  intro s hs
  have hcall := callUser_apply (Callback.heard callee form f x p) s
  rw [Callback.heard_apply] at hcall
  have hgrown : ∀ reply, ⟨callee, x, reply⟩ :: record ⊆ s.user.trace ++ [⟨callee, x, reply⟩] :=
    fun reply ↦ List.cons_subset.mpr ⟨List.mem_append_right _ (List.mem_singleton_self _),
      fun _ he ↦ List.mem_append_left _ (hs.record he)⟩
  rcases hanswer : f x p s.user.state with ⟨fault | b, u⟩
  · rw [hanswer] at hcall
    obtain ⟨hreply, hrecord⟩ := List.cons_subset.mp (hgrown (.fault fault))
    rw [Eval.bind_of_error hcall]
    refine ⟨⟨hs.arities, hrecord⟩, fun _ h ↦ ?_⟩
    cases h
    exact ⟨.failed hreply, hf x p s.user.state fault (by rw [hanswer])⟩
  · rw [hanswer] at hcall
    rw [Eval.bind_of_ok hcall]
    obtain ⟨hheard, hfault⟩ := hnext b
      { s with user := ⟨s.user.trace ++ [⟨callee, x, form b⟩], u⟩ } ⟨hs.arities, hgrown (form b)⟩
    exact ⟨⟨hheard.arities, (List.cons_subset.mp hheard.record).2⟩, hfault⟩

theorem explained_callUser {callee : Callee} {form : β → Reply α} {f : Callback α σ β}
    (hf : f.Plain) (x : Point α) (p : Parameters α) :
    Explained n a record (callUser (Callback.heard callee form f x p)) := by
  have h : Explained n a record (callUser (Callback.heard callee form f x p) >>= pure) :=
    explained_call hf fun b ↦ explained_pure b
  rwa [bind_pure] at h

end Session

/-! ## Placed constraints

The two operations of one constraint. Both call it and then compare what it returned with the number
of values that the record accounts for. -/

namespace Placed

variable {n k i : ℕ} {a : Option (List ℕ)} {record : List (Heard α)} {c : Constraint α σ}
  {x₀ : Point α}

/-- A constraint that changes shows itself beside the reply that fixed its number of values. -/
theorem explained_values (hc : c.Plain) (hrecord : ⟨.constraint i, x₀, .vector k⟩ ∈ record)
    (x : Point α) : Session.Explained n a record (values ⟨c.heard i, i, k⟩ x) := by
  refine Session.explained_call hc.value fun v ↦
    (Session.explained_ofExcept fun fault hfault ↦ ?_).bind fun _ ↦ Session.explained_pure v
  rw [Check.arity] at hfault
  split at hfault
  · cases hfault
  · rename_i hlength
    cases hfault
    exact ⟨.values (List.mem_cons_of_mem _ hrecord) List.mem_cons_self hlength, rfl⟩

theorem explained_block [Scalar α] (hc : c.Plain)
    (hrecord : ⟨.constraint i, x₀, .vector k⟩ ∈ record) (step : Step α) (x : Point α) :
    Session.Explained n a record (block ⟨c.heard i, i, k⟩ step n x) := by
  rcases hderivative : c.derivative with _ | derivative
  · simp only [block, Constraint.heard, hderivative, Option.map_none]
    exact (Session.explained_mapM fun p _ ↦ explained_values hc hrecord p).bind
      fun _ ↦ Session.explained_pure _
  · simp only [block, Constraint.heard, hderivative, Option.map_some]
    refine Session.explained_call (hc.derivative derivative hderivative) fun J ↦
      (Session.explained_ofExcept fun fault hfault ↦ ?_).bind fun _ ↦ Session.explained_pure J
    rw [Check.jacobian] at hfault
    split at hfault
    · cases hfault
    · rename_i hshape
      cases hfault
      refine ⟨.derivative (List.mem_cons_of_mem _ hrecord) List.mem_cons_self fun h ↦ ?_, rfl⟩
      exact hshape (Prod.mk.inj h)

end Placed

/-! ## Models

An operation of a model stacks what its constraints return, or evaluates the objective; each is a
sequence of calls with checks between them. -/

namespace Model

theorem placed_heard (m : Model α σ) (a : List ℕ) :
    m.heard.placed a = m.constraints.zipIdx.map fun p ↦ ⟨p.1.heard p.2, p.2, a.getD p.2 0⟩ := by
  rw [placed, heard, Constraint.zipIdx_heardAll, List.map_map]
  rfl

theorem length_constraints_heard (m : Model α σ) :
    m.heard.constraints.length = m.constraints.length := by
  rw [heard, Constraint.heardAll, List.length_map, List.length_zipIdx]

variable {m : Model α σ} {a : List ℕ} {record : List (Heard α)}

/-- What is stacked is explained where the record accounts for the number of values of each
constraint. -/
theorem explained_placed (harities : a.length = m.constraints.length) (hm : m.Plain)
    (hrecord : Accounts record a)
    {part : Placed α (Traced (Heard α) σ) → Eval α (Session α (Traced (Heard α) σ)) β}
    (h : ∀ c i k x, Constraint.Plain c → ⟨.constraint i, x, .vector k⟩ ∈ record →
      Session.Explained m.n (some a) record (part ⟨c.heard i, i, k⟩)) :
    Session.Explained m.n (some a) record ((m.heard.placed a).mapM part) := by
  refine Session.explained_mapM fun p hp ↦ ?_
  rw [placed_heard] at hp
  obtain ⟨q, hq, rfl⟩ := List.mem_map.mp hp
  obtain ⟨x, hx⟩ := hrecord q.2 _ (getElem?_arities harities hq)
  exact h q.1 q.2 _ x (hm.constraints q.1 (List.fst_mem_of_mem_zipIdx hq)) hx

theorem explained_stackedValues (harities : a.length = m.constraints.length) (hm : m.Plain)
    (hrecord : Accounts record a) (x : Point α) :
    Session.Explained m.n (some a) record (m.heard.stackedValues x) := by
  have hparts : Session.Explained m.n (some a) record ((m.heard.placed a).mapM
      fun p : Placed α (Traced (Heard α) σ) ↦ p.values x) :=
    explained_placed harities hm hrecord fun c i k y hc hy ↦ Placed.explained_values hc hy x
  refine (hparts.bind fun parts ↦ Session.explained_pure parts.flatten).of_eq fun s hs ↦ ?_
  exact stackedValues_eq (harities.trans m.length_constraints_heard.symm) hs x

variable [Scalar α]

theorem explained_stackedBlocks (harities : a.length = m.constraints.length) (hm : m.Plain)
    (hrecord : Accounts record a) {x : Point α} (hx : x.length = m.n) :
    Session.Explained m.n (some a) record (m.heard.stackedBlocks x) := by
  have hparts : Session.Explained m.n (some a) record ((m.heard.placed a).mapM
      fun p : Placed α (Traced (Heard α) σ) ↦ p.block m.step m.n x) :=
    explained_placed harities hm hrecord fun c i k y hc hy ↦ Placed.explained_block hc hy m.step x
  refine (hparts.bind fun parts ↦ Session.explained_pure (Matrix.stack m.n parts)).of_eq
    fun s hs ↦ ?_
  exact stackedBlocks_eq (harities.trans m.length_constraints_heard.symm) hs hx

/-! ### Value and gradient -/

section Evaluator

variable {a : Option (List ℕ)}

omit [Scalar α] in
theorem explained_checkGradient {callee : Callee}
    (hcallee : callee = .objective ∨ callee = .gradient) {x g : Point α} {n : ℕ}
    (hg : ⟨callee, x, .vector g.length⟩ ∈ record)
    {next : Unit → Eval α (Session α (Traced (Heard α) σ)) β}
    (hnext : ∀ u, Session.Explained n a record (next u)) :
    Session.Explained n a record (Eval.ofExcept (Check.gradient g n) >>= next) := by
  refine (Session.explained_ofExcept fun fault hfault ↦ ?_).bind hnext
  rw [Check.gradient] at hfault
  split at hfault
  · cases hfault
  · rename_i hlength
    cases hfault
    exact ⟨.gradient hcallee hg hlength, rfl⟩

theorem explained_evaluateBoth {both : Callback α σ (α × Point α)} (hboth : both.Plain)
    (x : Point α) :
    Session.Explained m.n a record (m.heard.evaluateBoth (Callback.heard .objective
      (fun answer ↦ .vector answer.2.length) both) x) := by
  have hfresh : Session.Explained m.n a record (m.heard.evaluateFresh (Callback.heard .objective
      (fun answer ↦ .vector answer.2.length) both) x) := by
    refine (Session.explained_lift fun _ ↦ ⟨rfl, rfl⟩).bind fun _ ↦
      Session.explained_countEvaluation.bind fun _ ↦ ?_
    refine Session.explained_call hboth fun answer ↦
      explained_checkGradient (.inl rfl) List.mem_cons_self fun _ ↦ ?_
    exact Session.Explained.bind (Session.explained_modify fun _ ↦ ⟨rfl, rfl⟩)
      fun _ ↦ Session.explained_pure answer
  intro s hs
  rw [evaluateBoth_apply]
  rcases s.kept with _ | e
  · exact hfresh s hs
  · simp only
    split
    · exact ⟨⟨hs.arities, hs.record⟩, fun _ h ↦ nomatch h⟩
    · exact hfresh s hs

theorem explained_objective (hm : m.evaluator.Plain) (x : Point α) :
    Session.Explained m.n a record (m.heard.objective x) := by
  have hcalled : ∀ value : Callback α σ α, value.Plain → Session.Explained m.n a record (do
      Session.countEvaluation
      Session.callUser (Callback.heard .objective (fun _ ↦ .number) value x m.parameters)) :=
    fun value hvalue ↦ Session.explained_countEvaluation.bind fun _ ↦
      Session.explained_callUser hvalue x _
  rw [objective, heard]
  rcases hevaluator : m.evaluator with value | ⟨value, gradient⟩ | both
  · rw [hevaluator] at hm
    exact hcalled value hm
  · rw [hevaluator] at hm
    exact hcalled value hm.1
  · rw [hevaluator] at hm
    exact (explained_evaluateBoth hm x).bind fun answer ↦ Session.explained_pure answer.1

theorem explained_gradient (hm : m.evaluator.Plain) (x : Point α) :
    Session.Explained m.n a record (m.heard.gradient x) := by
  rw [gradient, heard]
  rcases hevaluator : m.evaluator with value | ⟨value, gradient⟩ | both
  · rw [hevaluator] at hm
    refine Session.explained_countGradient.bind fun _ ↦ ?_
    rw [Forward.gradient_eq, Session.callUser_bind, Session.callUser_mapM]
    exact (Session.explained_mapM fun p _ ↦ Session.explained_callUser hm p _).bind
      fun values ↦ Session.explained_pure (Forward.slopes m.step.size values)
  · rw [hevaluator] at hm
    refine Session.explained_countGradient.bind fun _ ↦ Session.explained_call hm.2 fun g ↦ ?_
    exact explained_checkGradient (.inr rfl) List.mem_cons_self fun _ ↦ Session.explained_pure g
  · rw [hevaluator] at hm
    exact (explained_evaluateBoth hm x).bind fun answer ↦ Session.explained_pure answer.2

end Evaluator

/-! ### The probe -/

theorem explains_of_probe (hm : ∀ c ∈ m.constraints, c.Plain) (n : ℕ) {x : Point α}
    {s s' : Session α (Traced (Heard α) σ)} {fault : Fault α}
    (h : m.heard.probe x s = (.error fault, s')) : s'.Explains n fault := by
  have hcalls : Session.Explained n s.arities []
      (Session.callUser (Constraint.probe m.heard.constraints x)) := by
    rw [Constraint.probe_eq, Session.callUser_bind, Session.callUser_mapM]
    refine (Session.explained_mapM fun c hc ↦ ?_).bind fun _ ↦ Session.explained_pure _
    obtain ⟨p, hp, rfl⟩ := List.mem_map.mp hc
    exact Session.explained_callUser (hm p.1 (List.fst_mem_of_mem_zipIdx hp)).value x _
  rcases Eval.bind_eq_error.mp h with hprobe | ⟨_, _, -, hrest⟩
  · have hfault := (hcalls s ⟨rfl, List.nil_subset _⟩).2 fault
    rw [hprobe] at hfault
    exact hfault rfl
  · cases hrest

/-- A probe that answers leaves the reply of each constraint in the record. -/
theorem probeRecord_of_probe {x : Point α} {s s' : Session α (Traced (Heard α) σ)}
    {rows : RowBounds α} (hs : s.user.trace = []) (h : m.heard.probe x s = (.ok rows, s')) :
    ProbeRecord s'.user.trace x rows.arities := by
  obtain ⟨_, s₁, hprobe, hrest⟩ := Eval.bind_eq_ok.mp h
  rw [Session.callUser_apply] at hprobe
  obtain ⟨hanswer, rfl⟩ := Prod.mk.inj hprobe
  cases hrest
  exact Constraint.probeRecord_of_probe hs (Prod.ext hanswer rfl)

end Model

end NonlinearProgram
