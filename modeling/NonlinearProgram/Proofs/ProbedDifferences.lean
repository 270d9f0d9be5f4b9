import NonlinearProgram.Proofs.Slopes
import NonlinearProgram.Proofs.Guarded
import NonlinearProgram.Proofs.Traced

/-!
# What differences probe and compute

With a fixed step a gradient calls its function at the point, and then at the point with one
coordinate moved, for each coordinate in turn; the first fault ends it. `ProbedGradient` says which
calls are made, what comes of them, and that an answer is the difference quotient of the answers in
each coordinate. `ProbedJacobian` says the same of a vector-valued function, which is also at fault
at the first call that answers with another number of values, and that each row is the gradient of
one value.

In exact arithmetic a step in one coordinate moves an affine function by that step times one column
of its matrix (`Point.pairing_shift`). So the difference quotients are the matrix, for every step
other than zero (`Forward.fixed_differences`).

## The automatic step as a fixed one

With the automatic step differences are taken by a sweep that does not know of faults.
`Forward.automatic_eq_fixed` says that the sweep is the loop at the length of the automatic step,
for functions that may fault at any probe, change the number of their values, and answer otherwise
at every call: the outcomes and the states are equal, and the function is called at the same points
in the same order. Those points are an initial segment of `Forward.probes`, since neither way calls
a function again after it faulted.
-/

namespace NonlinearProgram

variable {α σ : Type}

namespace Forward

open Traced

/-! ## Calls

The points at which a function is called are those that a traced function writes down. Tracing
changes neither outcomes nor states, so that what is said of the calls and of the outcome is said of
one computation. -/

theorem alike_call (c : Point α → Eval α σ (Point α)) (k : Nat) (x : Point α) :
    alike (fun p ↦ call p (c p)) k x = call x (alike c k x) := by
  funext t
  rw [call_apply, alike, alike]
  rcases hc : c x t.state with ⟨fault | values, s⟩
  · rw [Eval.bind_of_error (call_of_eq hc), Eval.bind_of_error hc]
  · rw [Eval.bind_of_ok (call_of_eq hc), Eval.bind_of_ok hc]
    rcases hcheck : (Check.arity values.length 0 k : Except (Fault α) Unit) with fault | _ <;> rfl

variable [Scalar α]

/-- The points at which a function is called for its gradient, in order. -/
def gradientCalls (f : Point α → Eval α σ α) (x : Point α) (step : Step α) (s : σ) :
    List (Point α) :=
  (gradient (fun p ↦ call p (f p)) x step ⟨[], s⟩).2.trace

/-- The points at which a vector-valued function is called for its derivative, in order. -/
def jacobianCalls (c : Point α → Eval α σ (Point α)) (x : Point α) (step : Step α) (s : σ) :
    List (Point α) :=
  (jacobian (fun p ↦ call p (c p)) x step ⟨[], s⟩).2.trace

theorem gradient_call (f : Point α → Eval α σ α) (x : Point α) (step : Step α) (s : σ) :
    gradient f x step s = ((gradient (fun p ↦ call p (f p)) x step ⟨[], s⟩).1,
      (gradient (fun p ↦ call p (f p)) x step ⟨[], s⟩).2.state) :=
  untraced (lockstep_gradient (fun p ↦ lockstep_call p (f p)) x step) ⟨[], s⟩

theorem jacobian_call (c : Point α → Eval α σ (Point α)) (x : Point α) (step : Step α) (s : σ) :
    jacobian c x step s = ((jacobian (fun p ↦ call p (c p)) x step ⟨[], s⟩).1,
      (jacobian (fun p ↦ call p (c p)) x step ⟨[], s⟩).2.state) :=
  untraced (lockstep_jacobian (fun p ↦ lockstep_call p (c p)) x step) ⟨[], s⟩

theorem gradientCalls_isPrefix (f : Point α → Eval α σ α) (x : Point α) (step : Step α) (s : σ) :
    gradientCalls f x step s <+: probes x step.size := by
  obtain ⟨k, hk⟩ := trace_mapM_call (e := id) (f := f) (probes x step.size) ⟨[], s⟩
  rw [gradientCalls, gradient_eq, Eval.bind_pure_state]
  rw [List.map_id] at hk
  exact hk ▸ List.take_prefix k _

theorem jacobianCalls_isPrefix (c : Point α → Eval α σ (Point α)) (x : Point α) (step : Step α)
    (s : σ) : jacobianCalls c x step s <+: probes x step.size := by
  rw [jacobianCalls, jacobian_eq_fixed, fixedJacobian_eq, probes]
  rcases hc : c x s with ⟨fault | start, s₁⟩
  · rw [Eval.bind_of_error (call_of_eq hc)]
    exact ⟨_, rfl⟩
  · obtain ⟨k, hk⟩ := trace_mapM_call (e := id) (f := alike c start.length)
      ((List.range x.length).map fun j ↦ x.shift j step.size) ⟨[x], s₁⟩
    simp only [List.map_id, id_eq, ← alike_call] at hk
    rw [Eval.bind_of_ok (call_of_eq hc), Eval.bind_pure_state]
    refine hk ▸ (List.prefix_append_right_inj [x]).mpr (List.take_prefix k _)

/-! ## The two steps -/

/-- **The automatic step is the fixed step of its length.** For a number-valued and a vector-valued
function, whatever they do at a call, and for any routine that the differences are left to, the
outcomes are the same, with the same state left behind, and so are the calls, which begin with the
point itself and go through its coordinates. No probe of the automatic step is read beyond its last
value. -/
theorem automatic_eq_fixed (routine : Routine α) (f : Point α → Eval α σ α)
    (c : Point α → Eval α σ (Point α)) (x : Point α) (s : σ) :
    (autoGradient routine f x s = gradient f x (.fixed (Step.size .auto)) s ∧
      (autoGradient routine (fun p ↦ call p (f p)) x ⟨[], s⟩).2.trace
        = gradientCalls f x (.fixed (Step.size .auto)) s ∧
      autoJacobian routine c x s = jacobian c x (.fixed (Step.size .auto)) s ∧
      (autoJacobian routine (fun p ↦ call p (c p)) x ⟨[], s⟩).2.trace
        = jacobianCalls c x (.fixed (Step.size .auto)) s) ∧
      gradient f x .auto s = gradient f x (.fixed (Step.size .auto)) s ∧
      jacobian c x .auto s = jacobian c x (.fixed (Step.size .auto)) s ∧
      gradientCalls f x .auto s = gradientCalls f x (.fixed (Step.size .auto)) s ∧
      gradientCalls f x .auto s <+: probes x (Step.size .auto) ∧
      jacobianCalls c x .auto s = jacobianCalls c x (.fixed (Step.size .auto)) s ∧
      jacobianCalls c x .auto s <+: probes x (Step.size .auto) ∧
      jacobian? c x .auto s = some (jacobian c x .auto s) := by
  have hgradient : ∀ (routine : Routine α) {τ : Type} (f : Point α → Eval α τ α),
      autoGradient routine f x = gradient f x (.fixed (Step.size .auto)) :=
    fun routine _ f ↦ autoGradient_eq routine f x
  have hjacobian : ∀ (routine : Routine α) {τ : Type} (c : Point α → Eval α τ (Point α)),
      autoJacobian routine c x = jacobian c x (.fixed (Step.size .auto)) :=
    fun routine _ c ↦ autoJacobian_eq routine c x
  refine ⟨⟨congrFun (hgradient routine f) s, ?_, congrFun (hjacobian routine c) s, ?_⟩,
    congrFun (hgradient .standard f) s, congrFun (hjacobian .standard c) s, ?_,
    gradientCalls_isPrefix f x _ s, ?_, jacobianCalls_isPrefix c x _ s, ?_⟩
  · rw [gradientCalls, hgradient]
  · rw [jacobianCalls, hjacobian]
  · show (autoGradient .standard (fun p ↦ call p (f p)) x ⟨[], s⟩).2.trace = _
    rw [gradientCalls, hgradient]
  · show (autoJacobian .standard (fun p ↦ call p (c p)) x ⟨[], s⟩).2.trace = _
    rw [jacobianCalls, hjacobian]
  · have hcalls : ∀ p, Eval.Keeps (fun _ ↦ True) (c p) fun _ ↦ True :=
      fun p _ _ ↦ ⟨trivial, fun _ _ ↦ trivial⟩
    exact (safe_jacobian hcalls x .auto).agrees s trivial

end Forward

/-! ## Moving one coordinate -/

namespace Point

theorem getElem?_shift [Scalar α] (x : Point α) (j k : ℕ) (h : α) :
    (x.shift j h)[k]? = if k = j then x[k]?.map (· + h) else x[k]? := by
  rw [shift, List.getElem?_modify]
  by_cases hkj : k = j
  · simp only [if_pos hkj, if_pos hkj.symm]
    rfl
  · simp only [if_neg hkj, if_neg (Ne.symm hkj)]
    exact Option.map_id'

theorem length_shift [Scalar α] (x : Point α) (j : ℕ) (h : α) :
    (x.shift j h).length = x.length :=
  List.length_modify ..

variable {K : Type} [ExactScalar K]

theorem pairing_comm {v w : Point K} (h : v.length = w.length) :
    v.pairing w.coord = w.pairing v.coord := by
  rw [pairing, pairing, h]
  exact Finset.sum_congr rfl fun i _ ↦ mul_comm _ _

/-- The weighted sum of the coordinates changes by the weight of the one that is moved. -/
theorem pairing_shift {r x : Point K} (hr : r.length = x.length) {j : ℕ} (hj : j < x.length)
    (h : K) : r.pairing (x.shift j h).coord = r.pairing x.coord + h * r.coord j := by
  rw [pairing_comm (hr.trans (length_shift x j h).symm), pairing_comm hr, shift,
    pairing_modify x h fun hle ↦ absurd hj (Nat.not_lt.mpr hle)]

end Point

namespace Matrix.HasShape

variable {K : Type} [ExactScalar K] {A : Matrix K} {m n : ℕ}

omit [ExactScalar K] in
theorem map_row (hA : A.HasShape m n) : (List.range m).map A.row = A.rows := by
  rw [← hA.height]
  refine List.ext_getElem ?_ fun i hi hi' ↦ ?_
  · rw [List.length_map, List.length_range, Matrix.height]
  · rw [List.getElem_map, List.getElem_range, Matrix.row, List.getD_eq_getElem _ _ hi']

theorem length_affine {b : Point K} (hA : A.HasShape b.length n) (p : Point K) :
    ((A.image p).add b).length = b.length :=
  Point.length_add_eq ((A.length_image p).trans hA.height) rfl

theorem length_of_mem_affine {b : Point K} (hA : A.HasShape b.length n) {points : List (Point K)}
    {v : Point K} (hv : v ∈ points.map fun p ↦ (A.image p).add b) : v.length = b.length := by
  obtain ⟨p, -, rfl⟩ := List.mem_map.mp hv
  exact hA.length_affine p

end Matrix.HasShape

namespace Forward

open Traced

variable [Scalar α]

/-! ## Gradients

Whether the loop goes on is decided at each call, so the calls that are made are those up to the
first fault. They are a prefix of the probes, and all of them exactly if there is an answer. -/

/-- What the gradient of a function comes to with a fixed step, and where it calls the function. -/
structure ProbedGradient (f : Point α → Eval α σ α) (x : Point α) (h : α) (s : σ) : Prop where
  /-- It answers where the function answers at all probes, one after the other. -/
  ok : ∀ g t, fixedGradient (fun p ↦ call p (f p)) x h ⟨[], s⟩ = (.ok g, t) ↔
    t.trace = probes x h ∧ ∃ start moved,
      Eval.Answered f (probes x h) s (start :: moved) t.state ∧
      g = moved.map fun value ↦ (value - start) / h
  /-- It is at fault at the first probe where the function is, and calls it no more. -/
  error : ∀ fault t, fixedGradient (fun p ↦ call p (f p)) x h ⟨[], s⟩ = (.error fault, t) ↔
    ∃ before p after values s₁, probes x h = before ++ p :: after ∧ t.trace = before ++ [p] ∧
      Eval.Answered f before s values s₁ ∧ f p s₁ = (.error fault, t.state)
  /-- Without the trace it is the same. -/
  untraced : fixedGradient f x h s =
    ((fixedGradient (fun p ↦ call p (f p)) x h ⟨[], s⟩).1,
      (fixedGradient (fun p ↦ call p (f p)) x h ⟨[], s⟩).2.state)

/-! ## Derivatives of vectors

Besides a fault a call can answer with another number of values than the first one. The comparison
follows each call, so that the calls end at whichever comes first. -/

/-- What the derivative of a vector-valued function comes to with a fixed step, and where it calls
the function. -/
structure ProbedJacobian (c : Point α → Eval α σ (Point α)) (x : Point α) (h : α) (s : σ) :
    Prop where
  /-- It answers where the function answers at all probes with one number of values. -/
  ok : ∀ J t, fixedJacobian (fun p ↦ call p (c p)) x h ⟨[], s⟩ = (.ok J, t) ↔
    t.trace = probes x h ∧ ∃ start moved,
      Eval.Answered c (probes x h) s (start :: moved) t.state ∧
      (∀ values ∈ moved, values.length = start.length) ∧
      J = ⟨x.length, (List.range start.length).map fun i ↦
        moved.map fun values ↦ (values.coord i - start.coord i) / h⟩
  /-- It is at fault at the first probe where the function is, or has another number of values than
  before, and calls it no more. -/
  error : ∀ fault t, fixedJacobian (fun p ↦ call p (c p)) x h ⟨[], s⟩ = (.error fault, t) ↔
    ∃ before p after answers s₁, probes x h = before ++ p :: after ∧ t.trace = before ++ [p] ∧
      Eval.Answered c before s answers s₁ ∧ (∀ v ∈ answers, ∀ w ∈ answers, v.length = w.length) ∧
      (c p s₁ = (.error fault, t.state) ∨ ∃ start ∈ answers, ∃ values,
        c p s₁ = (.ok values, t.state) ∧ values.length ≠ start.length ∧
          fault = .arityChanged 0 start.length values.length)
  /-- Without the trace it is the same. -/
  untraced : fixedJacobian c x h s =
    ((fixedJacobian (fun p ↦ call p (c p)) x h ⟨[], s⟩).1,
      (fixedJacobian (fun p ↦ call p (c p)) x h ⟨[], s⟩).2.state)
  /-- Each row is the gradient of one of the values. -/
  rows : ∀ J s', fixedJacobian c x h s = (.ok J, s') → ∀ i < J.height,
    fixedGradient (fun p ↦ c p >>= fun values ↦ pure (values.coord i)) x h s = (.ok (J.row i), s')

theorem probedGradient (f : Point α → Eval α σ α) (x : Point α) (h : α) (s : σ) :
    ProbedGradient f x h s where
  ok g t := by
    rw [fixedGradient_eq, Eval.bind_pure_eq_ok]
    simp only [Eval.mapM_eq_ok, answered_call_iff, List.map_id', List.nil_append]
    constructor
    · rintro ⟨values, ⟨hanswered, htrace⟩, rfl⟩
      cases hanswered with
      | cons hstart hmoved => exact ⟨htrace, _, _, .cons hstart hmoved, rfl⟩
    · rintro ⟨htrace, start, moved, hanswered, rfl⟩
      exact ⟨start :: moved, ⟨hanswered, htrace⟩, rfl⟩
  error fault t := by
    rw [fixedGradient_eq, Eval.bind_pure_eq_error, mapM_call_eq_error]
    simp only [List.nil_append, List.map_id']
  untraced := gradient_call f x (.fixed h) s

omit [Scalar α] in
theorem same_lengths_iff {start : Point α} {answers : List (Point α)} :
    (∀ v ∈ start :: answers, ∀ w ∈ start :: answers, v.length = w.length) ↔
      ∀ v ∈ answers, v.length = start.length := by
  constructor
  · exact fun h v hv ↦ h v (List.mem_cons_of_mem _ hv) start List.mem_cons_self
  · intro h v hv w hw
    have hstart : ∀ u ∈ start :: answers, u.length = start.length :=
      List.forall_mem_cons.mpr ⟨rfl, h⟩
    rw [hstart v hv, hstart w hw]

theorem columns_cons {h : α} {start : Point α} {moved : List (Point α)}
    (hlengths : ∀ values ∈ moved, values.length = start.length) :
    columns h (start :: moved) = ⟨moved.length, (List.range start.length).map fun i ↦
      moved.map fun values ↦ (values.coord i - start.coord i) / h⟩ := by
  rw [← rows_columns hlengths, columns, Matrix.ofColumns, List.length_map]

theorem fixedJacobian_call (c : Point α → Eval α σ (Point α)) (x : Point α) (h : α) :
    fixedJacobian (fun p ↦ call p (c p)) x h = (do
      let start ← call x (c x)
      let moved ← ((List.range x.length).map fun j ↦ x.shift j h).mapM fun p ↦
        call p (alike c start.length p)
      pure (columns h (start :: moved))) := by
  have halike : ∀ k, alike (fun p ↦ call p (c p)) k = fun p ↦ call p (alike c k p) :=
    fun k ↦ funext (alike_call c k)
  rw [fixedJacobian_eq]
  simp only [halike]

section Vector

variable {c : Point α → Eval α σ (Point α)} {x : Point α} {h : α} {s s' : σ}

omit [Scalar α] in
/-- Where all answers so far have one length, a call is at fault if the function is, or if it
answers with another number of values than any of them. -/
theorem alike_eq_error {start p : Point α} {answers : List (Point α)} {fault : Fault α}
    (hlengths : ∀ v ∈ answers, v.length = start.length) :
    alike c start.length p s = (.error fault, s') ↔ c p s = (.error fault, s') ∨
      ∃ first ∈ start :: answers, ∃ values, c p s = (.ok values, s') ∧
        values.length ≠ first.length ∧
          fault = .arityChanged 0 first.length values.length := by
  have hfirst : ∀ v ∈ start :: answers, v.length = start.length :=
    List.forall_mem_cons.mpr ⟨rfl, hlengths⟩
  refine counted_eq_error.trans (or_congr_right ?_)
  constructor
  · rintro ⟨values, hvalues, hne, hfault⟩
    exact ⟨start, List.mem_cons_self, values, hvalues, hne, hfault⟩
  · rintro ⟨first, hmem, values, hvalues, hne, hfault⟩
    rw [hfirst first hmem] at hne hfault
    exact ⟨values, hvalues, hne, hfault⟩

theorem fixedJacobian_call_eq_ok {J : Matrix α} {t : Traced (Point α) σ} :
    fixedJacobian (fun p ↦ call p (c p)) x h ⟨[], s⟩ = (.ok J, t) ↔
      t.trace = probes x h ∧ ∃ start moved,
        Eval.Answered c (probes x h) s (start :: moved) t.state ∧
        (∀ values ∈ moved, values.length = start.length) ∧
        J = ⟨x.length, (List.range start.length).map fun i ↦
          moved.map fun values ↦ (values.coord i - start.coord i) / h⟩ := by
  rw [fixedJacobian_call, Eval.bind_eq_ok, probes]
  constructor
  · rintro ⟨start, t₁, hstart, hrest⟩
    obtain ⟨moved, hmoved, rfl⟩ := Eval.bind_pure_eq_ok.mp hrest
    obtain ⟨hmoved, htrace⟩ := answered_call_iff.mp (Eval.mapM_eq_ok.mp hmoved)
    obtain ⟨hstart, hcall⟩ := call_eq_iff.mp hstart
    obtain ⟨hanswered, hlengths⟩ := answered_counted_iff.mp hmoved
    refine ⟨?_, start, moved, .cons hstart hanswered, hlengths, ?_⟩
    · rw [htrace, hcall, List.map_id', List.nil_append, List.singleton_append]
    · rw [columns_cons hlengths, hanswered.length_eq, List.length_map, List.length_range]
  · rintro ⟨htrace, start, moved, hanswered, hlengths, rfl⟩
    cases hanswered with
    | @cons _ _ _ _ _ s₁ _ hstart hmoved =>
      refine ⟨start, ⟨[x], s₁⟩, call_of_eq hstart, Eval.bind_pure_eq_ok.mpr ⟨moved,
        Eval.mapM_eq_ok.mpr (answered_call_iff.mpr ⟨answered_counted_iff.mpr
          ⟨hmoved, hlengths⟩, ?_⟩), ?_⟩⟩
      · rw [htrace, List.map_id', List.singleton_append]
      · rw [columns_cons hlengths, hmoved.length_eq, List.length_map, List.length_range]

theorem fixedJacobian_call_eq_error {fault : Fault α} {t : Traced (Point α) σ} :
    fixedJacobian (fun p ↦ call p (c p)) x h ⟨[], s⟩ = (.error fault, t) ↔
      ∃ before p after answers s₁, probes x h = before ++ p :: after ∧ t.trace = before ++ [p] ∧
        Eval.Answered c before s answers s₁ ∧
        (∀ v ∈ answers, ∀ w ∈ answers, v.length = w.length) ∧
        (c p s₁ = (.error fault, t.state) ∨ ∃ start ∈ answers, ∃ values,
          c p s₁ = (.ok values, t.state) ∧ values.length ≠ start.length ∧
            fault = .arityChanged 0 start.length values.length) := by
  rw [fixedJacobian_call, Eval.bind_eq_error, probes]
  constructor
  · rintro (hstart | ⟨start, t₁, hstart, hmoved⟩)
    · obtain ⟨hfault, htrace⟩ := call_eq_iff.mp hstart
      have hnone : ∀ v ∈ ([] : List (Point α)), ∀ w ∈ ([] : List (Point α)),
          v.length = w.length := fun _ hv ↦ absurd hv List.not_mem_nil
      exact ⟨[], x, _, [], s, rfl, htrace, .nil s, hnone, .inl hfault⟩
    · obtain ⟨before, p, after, answers, s₁, hsplit, htrace, hbefore, hp⟩ :=
        mapM_call_eq_error.mp (Eval.bind_pure_eq_error.mp hmoved)
      obtain ⟨hstart, hcall⟩ := call_eq_iff.mp hstart
      obtain ⟨hanswered, hlengths⟩ := answered_counted_iff.mp hbefore
      refine ⟨x :: before, p, after, start :: answers, s₁, ?_, ?_, .cons hstart hanswered,
        same_lengths_iff.mpr hlengths, (alike_eq_error hlengths).mp hp⟩
      · rw [hsplit, List.cons_append]
      · rw [htrace, hcall, List.map_id', List.nil_append, List.singleton_append, List.cons_append]
  · rintro ⟨before, p, after, answers, s₁, hsplit, htrace, hbefore, hlengths, hp⟩
    cases hbefore with
    | nil =>
      obtain ⟨rfl, -⟩ := List.cons.inj hsplit
      rcases hp with hfault | ⟨_, hstart, -⟩
      · exact .inl (call_eq_iff.mpr ⟨hfault, htrace⟩)
      · exact absurd hstart List.not_mem_nil
    | @cons y before start answers _ s₂ _ hstart hanswered =>
      obtain ⟨rfl, hrest⟩ := List.cons.inj hsplit
      have hlengths := same_lengths_iff.mp hlengths
      refine .inr ⟨start, ⟨[x], s₂⟩, call_of_eq hstart, Eval.bind_pure_eq_error.mpr
        (mapM_call_eq_error.mpr ⟨before, p, after, answers, s₁, hrest, ?_,
          answered_counted_iff.mpr ⟨hanswered, hlengths⟩, (alike_eq_error hlengths).mpr hp⟩)⟩
      rw [htrace, List.map_id', List.cons_append, List.singleton_append]

/-- A row of a derivative is made of the same calls as the derivative, and of one value of each
answer. -/
theorem fixedGradient_of_fixedJacobian {J : Matrix α} (hJ : fixedJacobian c x h s = (.ok J, s'))
    {i : ℕ} (hi : i < J.height) :
    fixedGradient (fun p ↦ c p >>= fun values ↦ pure (values.coord i)) x h s
      = (.ok (J.row i), s') := by
  rw [fixedJacobian_eq] at hJ
  obtain ⟨start, s₁, hstart, hrest⟩ := Eval.bind_eq_ok.mp hJ
  obtain ⟨moved, hmoved, rfl⟩ := Eval.bind_pure_eq_ok.mp hrest
  obtain ⟨hanswered, hlengths⟩ := answered_counted_iff.mp (Eval.mapM_eq_ok.mp hmoved)
  rw [columns_cons hlengths, Matrix.height, List.length_map, List.length_range] at hi
  have hrow : (columns h (start :: moved)).row i
      = slopes h ((start :: moved).map fun values ↦ values.coord i) := by
    rw [Matrix.row, rows_columns hlengths, List.getD_eq_getElem _ _ (by
      rwa [List.length_map, List.length_range]), List.getElem_map, List.getElem_range,
      List.map_cons, slopes, List.map_map]
    rfl
  have hprobes : Eval.Answered c (probes x h) s (start :: moved) s' := .cons hstart hanswered
  rw [fixedGradient_eq, Eval.mapM_bind_pure, bind_assoc,
    Eval.bind_of_ok (Eval.mapM_eq_ok.mpr hprobes), hrow]
  rfl

end Vector

theorem probedJacobian (c : Point α → Eval α σ (Point α)) (x : Point α) (h : α) (s : σ) :
    ProbedJacobian c x h s where
  ok _ _ := fixedJacobian_call_eq_ok
  error _ _ := fixedJacobian_call_eq_error
  untraced := jacobian_call c x (.fixed h) s
  rows _ _ hJ _ hi := fixedGradient_of_fixedJacobian hJ hi

/-! ## Affine functions

At a moved point an affine function has its value at the point, plus the step times a coefficient.
The quotient by the step is the coefficient. -/

theorem length_of_mem_probes {x p : Point α} {h : α} (hp : p ∈ probes x h) :
    p.length = x.length := by
  rcases List.mem_cons.mp hp with rfl | hp
  · rfl
  · obtain ⟨j, -, rfl⟩ := List.mem_map.mp hp
    exact Point.length_shift x j h

section Exact

variable {K : Type} [ExactScalar K] {x : Point K} {h : K}

theorem slopes_affine {a : Point K} (ha : a.length = x.length) (b : K) (hh : h ≠ 0) :
    slopes h ((probes x h).map fun p ↦ a.pairing p.coord + b) = a := by
  have hquotient : ∀ j < x.length,
      (a.pairing (x.shift j h).coord + b - (a.pairing x.coord + b)) / h = a.coord j := by
    intro j hj
    rw [Point.pairing_shift ha hj]
    field_simp
    ring
  rw [probes, List.map_cons, slopes, List.map_map, List.map_map]
  refine List.ext_getElem ?_ fun j hj hj' ↦ ?_
  · rw [List.length_map, List.length_range, ha]
  · rw [List.getElem_map, List.getElem_range, Function.comp_apply, Function.comp_apply,
      hquotient j (ha ▸ hj'), Point.coord, List.getD_eq_getElem _ _ hj']

theorem fixedGradient_affine {f : Point K → Eval K σ K} {a : Point K} {b : K}
    (ha : a.length = x.length)
    (hf : ∀ p, p.length = x.length → (f p).Gives (a.pairing p.coord + b)) (hh : h ≠ 0) (s : σ) :
    (fixedGradient f x h s).1 = .ok a := by
  have hprobes : ∀ p ∈ probes x h, (f p).Gives (a.pairing p.coord + b) :=
    fun p hp ↦ hf p (length_of_mem_probes hp)
  obtain ⟨s', hs'⟩ := Eval.answered_of_gives hprobes s
  rw [fixedGradient_eq, Eval.bind_of_ok (Eval.mapM_eq_ok.mpr hs'), slopes_affine ha b hh]
  rfl

theorem columns_affine {A : Matrix K} {b : Point K} (hA : A.HasShape b.length x.length)
    (hh : h ≠ 0) : columns h ((probes x h).map fun p ↦ (A.image p).add b) = A := by
  have hcoord : ∀ (p : Point K) (i : ℕ),
      ((A.image p).add b).coord i = Point.pairing (A.row i) p.coord + b.coord i := fun p i ↦ by
    rw [Point.coord_add ((A.length_image p).trans hA.height), Matrix.coord_image]
  have hrow : ∀ i < b.length, ((List.range x.length).map fun j ↦
      (((A.image (x.shift j h)).add b).coord i - ((A.image x).add b).coord i) / h) = A.row i := by
    intro i hi
    have hslopes := slopes_affine (hA.length_row hi) (b.coord i) hh
    rw [probes, List.map_cons, slopes, List.map_map, List.map_map] at hslopes
    simp only [hcoord]
    exact hslopes
  rw [probes, List.map_cons,
    columns_cons fun v hv ↦ (hA.length_of_mem_affine hv).trans (hA.length_affine x).symm,
    hA.length_affine]
  simp only [List.map_map, Function.comp_def, List.length_map, List.length_range]
  rw [List.map_congr_left fun i hi ↦ hrow i (List.mem_range.mp hi), hA.map_row, ← hA.width]

theorem fixedJacobian_affine {c : Point K → Eval K σ (Point K)} {A : Matrix K} {b : Point K}
    (hA : A.HasShape b.length x.length)
    (hc : ∀ p, p.length = x.length → (c p).Gives ((A.image p).add b)) (hh : h ≠ 0) (s : σ) :
    (fixedJacobian c x h s).1 = .ok A := by
  have hmoves : ∀ p ∈ (List.range x.length).map fun j ↦ x.shift j h,
      (c p).Gives ((A.image p).add b) :=
    fun p hp ↦ hc p (length_of_mem_probes (List.mem_cons_of_mem x hp))
  obtain ⟨s', hmoved⟩ := Eval.answered_of_gives hmoves (c x s).2
  have hstart : c x s = (.ok ((A.image x).add b), (c x s).2) := Prod.ext (hc x rfl s) rfl
  have halike : ((List.range x.length).map fun j ↦ x.shift j h).mapM
      (alike c ((A.image x).add b).length) (c x s).2 = (.ok _, s') :=
    Eval.mapM_eq_ok.mpr (answered_counted_iff.mpr ⟨hmoved, fun v hv ↦
      (hA.length_of_mem_affine hv).trans (hA.length_affine x).symm⟩)
  rw [fixedJacobian_eq, Eval.bind_of_ok hstart, Eval.bind_of_ok halike]
  exact congrArg Except.ok (columns_affine hA hh)

end Exact

/-! ## Main statement -/

/-- **What differences with a fixed step probe and compute.** Gradients and derivatives call their
function at the point and then at the points that have one coordinate moved by the step, up to the
first fault or the first answer of another length; what they answer are the difference quotients. In
exact arithmetic these are the coefficients of an affine function, whatever the step. -/
theorem fixed_differences (f : Point α → Eval α σ α) (c : Point α → Eval α σ (Point α))
    (x : Point α) (h : α) (s : σ) :
    ProbedGradient f x h s ∧ ProbedJacobian c x h s ∧
      probes x h = x :: (List.range x.length).map (fun j ↦ x.shift j h) ∧
      (∀ j k, (x.shift j h)[k]? = if k = j then x[k]?.map (· + h) else x[k]?) ∧
      ∀ {K τ : Type} [ExactScalar K] {y : Point K} {t : K} (u : τ), t ≠ 0 →
        (∀ {f : Point K → Eval K τ K} {a : Point K} {b : K}, a.length = y.length →
          (∀ p, p.length = y.length → (f p).Gives (a.pairing p.coord + b)) →
          (fixedGradient f y t u).1 = .ok a) ∧
        ∀ {c : Point K → Eval K τ (Point K)} {A : Matrix K} {b : Point K},
          A.HasShape b.length y.length →
          (∀ p, p.length = y.length → (c p).Gives ((A.image p).add b)) →
          (fixedJacobian c y t u).1 = .ok A :=
  ⟨probedGradient f x h s, probedJacobian c x h s, rfl, fun j k ↦ x.getElem?_shift j k h,
    fun u ht ↦ ⟨fun ha hf ↦ fixedGradient_affine ha hf ht u,
      fun hA hc ↦ fixedJacobian_affine hA hc ht u⟩⟩

/-- A function that is at fault where its second coordinate is above one. -/
def limited (p : Point ℚ) : Eval ℚ Unit ℚ :=
  if 1 < p.coord 1 then throw .noVariables else pure (p.coord 0)

/-- A map of three variables with two values. -/
def wideMap : Matrix ℚ := ⟨3, [[1, 2, 3], [4, 5, 6]]⟩

theorem fixed_differences_wideMap :
    fixedGradient (fun p ↦ call p (limited p)) [0, 1, 2] (1 / 2) ⟨[], ()⟩
        = (.error .noVariables, ⟨[[0, 1, 2], [1 / 2, 1, 2], [0, 3 / 2, 2]], ()⟩) ∧
      (1 / 2 : ℚ) ≠ 0 ∧ wideMap.HasShape 2 3 ∧
      (fixedJacobian (fun p ↦ (pure ((wideMap.image p).add [7, -1]) : Eval ℚ Unit (Point ℚ)))
        [0, 1, 2] (1 / 2) ()).1 = .ok wideMap := by
  have hstep : (1 / 2 : ℚ) ≠ 0 := by norm_num
  have hshape : wideMap.HasShape 2 3 := ⟨rfl, rfl, by decide⟩
  have hprobes : probes [0, 1, 2] (1 / 2 : ℚ)
      = [[0, 1, 2], [1 / 2, 1, 2]] ++ [0, 3 / 2, 2] :: [[0, 1, 5 / 2]] := by decide +kernel
  obtain ⟨hgradient, -, -, -, hexact⟩ := fixed_differences limited (fun p ↦ pure p)
    [0, 1, 2] (1 / 2) ()
  obtain ⟨-, hjacobian⟩ := hexact (K := ℚ) (y := [0, 1, 2]) () hstep
  refine ⟨(hgradient.error _ _).mpr ⟨_, _, _, [0, 1 / 2], (), hprobes, rfl, ?_, ?_⟩, hstep, hshape,
    hjacobian (b := [7, -1]) hshape fun p _ u ↦ rfl⟩
  · exact .cons rfl (.cons rfl (.nil ()))
  · have hlimit : (1 : ℚ) < Point.coord [0, 3 / 2, 2] 1 := by decide +kernel
    rw [limited, if_pos hlimit]
    rfl

end Forward

end NonlinearProgram
