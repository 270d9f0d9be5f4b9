import Mathlib.Data.List.GetD
import NonlinearProgram.Derivative.Forward
import NonlinearProgram.Proofs.Sequence

/-!
# What forward differences ask for

Both ways of probing come to the same: the function is evaluated at `Forward.probes`, at the point
itself first and then with one variable moved at a time, the first fault ends the row, and the
quotients are taken of the answers. With the fixed step this is how the loop is written. With the
automatic step the sweep does not stop, but from the first fault on it runs over a function that is
not called any more (`Forward.Parks`), so that neither the state nor the outcome can tell.

A vector-valued function has to have as many values at every probe as at the first one
(`Forward.alike`). Where it always has, as a function does that is checked for it before it answers,
this does not show either.
-/

namespace NonlinearProgram

namespace Point

variable {α : Type} [Scalar α]

theorem shift_eq_set (x : Point α) (j : ℕ) (h : α) : x.shift j h = x.set j (x.coord j + h) := by
  rw [coord, List.getD_eq_getElem?_getD]
  exact @List.modify_eq_set α ⟨0.0⟩ (· + h) j x

/-- A coordinate that is put back restores the point. -/
theorem set_set_coord (x : Point α) (j : ℕ) (a : α) : (x.set j a).set j (x.coord j) = x := by
  rw [List.set_set]
  rcases Nat.lt_or_ge j x.length with hj | hj
  · rw [coord, List.getD_eq_getElem _ _ hj, List.set_getElem_self]
  · exact List.set_eq_of_length_le hj

end Point

namespace Forward

variable {α σ β : Type}

/-! ## Parked faults

A routine that cannot fail is handed a function that always answers. Where the function underneath
faults, the fault and the state that it left are put aside and something is answered in its place;
so the rest of the row changes nothing, and what was put aside is the outcome. -/

/-- A function that always answers, made from a fallible one: it hands on answers as they are,
parks the first fault beside the state, and does nothing once a fault is parked. -/
structure Parks (good : Parked α σ → Prop) (f : Point α → Eval α σ β)
    (F : Point α → StateM (Parked α σ) β) : Prop where
  idle : ∀ x p, p.fault ≠ none → (F x p).2 = p
  answer : ∀ x p b s, p.fault = none → good p → f x p.state = (.ok b, s) →
    F x p = (b, { p with state := s }) ∧ good { p with state := s }
  park : ∀ x p fault s, p.fault = none → good p → f x p.state = (.error fault, s) →
    (F x p).2 = { p with fault := some fault, state := s }

variable {good : Parked α σ → Prop} {f : Point α → Eval α σ β}
  {F : Point α → StateM (Parked α σ) β}

theorem Parks.mapM_idle (h : Parks good f F) (xs : List (Point α)) {p : Parked α σ}
    (hp : p.fault ≠ none) : (xs.mapM F p).2 = p := by
  induction xs with
  | nil => rfl
  | cons x xs ih =>
    rw [List.mapM_cons, Eval.state_bind_apply, Eval.state_bind_apply, h.idle x p hp]
    exact ih

theorem Parks.mapM (h : Parks good f F) (xs : List (Point α)) {p : Parked α σ}
    (hp : p.fault = none) (hgood : good p) :
    (∀ bs s, xs.mapM f p.state = (.ok bs, s) → xs.mapM F p = (bs, { p with state := s })) ∧
      ∀ fault s, xs.mapM f p.state = (.error fault, s) →
        (xs.mapM F p).2 = { p with fault := some fault, state := s } := by
  induction xs generalizing p with
  | nil =>
    refine ⟨fun bs s hxs ↦ ?_, fun fault s hxs ↦ ?_⟩
    · rw [List.mapM_nil, Eval.pure_apply] at hxs
      cases hxs
      rfl
    · rw [List.mapM_nil, Eval.pure_apply] at hxs
      cases hxs
  | cons x xs ih =>
    rw [List.mapM_cons, List.mapM_cons, Eval.state_bind_apply]
    refine ⟨fun bs s hxs ↦ ?_, fun fault s hxs ↦ ?_⟩
    · obtain ⟨b, s₁, hx, hxs⟩ := Eval.bind_eq_ok.mp hxs
      obtain ⟨rest, hrest, rfl⟩ := Eval.bind_pure_eq_ok.mp hxs
      obtain ⟨hF, hgood'⟩ := h.answer x p b s₁ hp hgood hx
      have hrest' := (ih (p := { p with state := s₁ }) hp hgood').1 rest s hrest
      rw [hF, Eval.state_bind_apply, hrest']
      rfl
    · rcases Eval.bind_eq_error.mp hxs with hx | ⟨b, s₁, hx, hxs⟩
      -- at fault at once: the rest of the row idles
      · have hF := h.park x p fault s hp hgood hx
        rw [hF, Eval.state_bind_apply]
        exact h.mapM_idle xs (Option.some_ne_none fault)
      -- at fault further on: the first answer left everything as the induction wants it
      · obtain ⟨hF, hgood'⟩ := h.answer x p b s₁ hp hgood hx
        have hrest := (ih (p := { p with state := s₁ }) hp hgood').2 fault s
          (Eval.bind_pure_eq_error.mp hxs)
        rw [hF, Eval.state_bind_apply]
        exact hrest

/-! ## Numbers of values

A function has a length that its first answer fixes, or one that is given. `counted` is the function
with its length checked, and `alike` the same with the length of the first answer. -/

/-- The values at a point, of the given number. -/
def counted (c : Point α → Eval α σ (Point α)) (index k : Nat) (x : Point α) :
    Eval α σ (Point α) := do
  let values ← c x
  Eval.ofExcept (Check.arity values.length index k)
  pure values

section Counted

variable {c : Point α → Eval α σ (Point α)} {index k : Nat} {x : Point α} {s s' : σ}

theorem counted_of_ok {values : Point α} (h : c x s = (.ok values, s')) :
    counted c index k x s = if values.length = k then (.ok values, s')
      else (.error (.arityChanged index k values.length), s') := by
  rw [counted, Eval.bind_of_ok h, Check.arity]
  split <;> rfl

theorem counted_eq_ok {values : Point α} :
    counted c index k x s = (.ok values, s') ↔ c x s = (.ok values, s') ∧ values.length = k := by
  rcases hc : c x s with ⟨fault | found, s₁⟩
  · rw [counted, Eval.bind_of_error hc]
    exact iff_of_false nofun nofun
  · rw [counted_of_ok hc]
    split
    · rename_i hlength
      refine (and_iff_left_of_imp fun h ↦ ?_).symm
      cases h
      exact hlength
    · rename_i hlength
      refine iff_of_false nofun fun ⟨h, hvalues⟩ ↦ ?_
      cases h
      exact hlength hvalues

theorem counted_eq_error {fault : Fault α} :
    counted c index k x s = (.error fault, s') ↔ c x s = (.error fault, s') ∨
      ∃ values, c x s = (.ok values, s') ∧ values.length ≠ k ∧
        fault = .arityChanged index k values.length := by
  rcases hc : c x s with ⟨fault' | found, s₁⟩
  · rw [counted, Eval.bind_of_error hc]
    exact (or_iff_left fun ⟨_, h, _⟩ ↦ nomatch h).symm
  · rw [counted_of_ok hc]
    constructor
    · intro h
      split at h
      · cases h
      · rename_i hlength
        cases h
        exact Or.inr ⟨found, rfl, hlength, rfl⟩
    · rintro (h | ⟨values, h, hlength, rfl⟩)
      · cases h
      · cases h
        rw [if_neg hlength]

theorem answered_counted_iff {points : List (Point α)} {answers : List (Point α)} :
    Eval.Answered (counted c index k) points s answers s' ↔
      Eval.Answered c points s answers s' ∧ ∀ values ∈ answers, values.length = k := by
  constructor
  · intro h
    induction h with
    | nil s => exact ⟨.nil s, fun _ h ↦ absurd h List.not_mem_nil⟩
    | cons first _ ih =>
      obtain ⟨hfirst, hlength⟩ := counted_eq_ok.mp first
      exact ⟨.cons hfirst ih.1, List.forall_mem_cons.mpr ⟨hlength, ih.2⟩⟩
  · rintro ⟨h, hlengths⟩
    induction h with
    | nil s => exact .nil s
    | cons first _ ih =>
      obtain ⟨hlength, hlengths⟩ := List.forall_mem_cons.mp hlengths
      exact .cons (counted_eq_ok.mpr ⟨first, hlength⟩) (ih hlengths)

end Counted

/-- The values at a probe, as many as at the first one. -/
def alike (c : Point α → Eval α σ (Point α)) (k : Nat) (x : Point α) : Eval α σ (Point α) := do
  let values ← c x
  Eval.ofExcept (Check.arity values.length 0 k)
  pure values

theorem alike_keeps (c : Point α → Eval α σ (Point α)) (k : Nat) (x : Point α) :
    Eval.Keeps (fun _ ↦ True) (alike c k x) fun values ↦ values.length = k :=
  Eval.Keeps.bind (fun _ _ ↦ ⟨trivial, fun _ _ ↦ trivial⟩) fun values _ ↦
    (Eval.keeps_check_arity values.length 0 k).bind fun _ hlength ↦ Eval.keeps_pure hlength

variable [Scalar α]

/-! ## Rows of probes

What both steps have in common, apart from how they ask: the points, in their order, and what is
made of the answers. -/

/-- The points at which a function is evaluated: the point itself, then one variable moved. -/
def probes (x : Point α) (h : α) : List (Point α) :=
  x :: (List.range x.length).map fun j ↦ x.shift j h

/-- The difference quotients of numbers, the first of which is the one that the others are compared
to. -/
def slopes (h : α) : List α → Point α
  | [] => []
  | start :: moved => moved.map fun value ↦ (value - start) / h

/-- The difference quotients of vectors, one column for each but the first. -/
def columns (h : α) : List (Point α) → Matrix α
  | [] => ⟨0, []⟩
  | start :: moved => .ofColumns start.length (moved.map fun values ↦ quotients h values start)

theorem length_probes (x : Point α) (h : α) : (probes x h).length = x.length + 1 := by
  rw [probes, List.length_cons, List.length_map, List.length_range]

theorem length_slopes (h : α) (values : List α) : (slopes h values).length = values.length - 1 := by
  cases values with
  | nil => rfl
  | cons start moved => exact List.length_map _

theorem shape_columns {h : α} {k : Nat} {values : List (Point α)} (hne : values ≠ [])
    (hlength : ∀ v ∈ values, v.length = k) :
    (columns h values).shape = (k, values.length - 1) := by
  rcases values with _ | ⟨start, moved⟩
  · exact absurd rfl hne
  rw [List.forall_mem_cons] at hlength
  refine Prod.ext ?_ (List.length_map _)
  simp [columns, Matrix.shape, Matrix.height, Matrix.ofColumns, hlength.1]

/-! ## Fixed step

The probe is one point that changes: a variable is moved, the function is called, and the variable
is put back. Since what is put back is the coordinate itself and not a difference, the probe is `x`
again behind every call, whatever the arithmetic, and every call is at `x` with one variable
moved. -/

theorem inPlace_eq (act : Point α → Eval α σ β) (x : Point α) (h : α) (js : List ℕ) :
    inPlace act h x js = js.mapM fun j ↦ act (x.shift j h) := by
  induction js with
  | nil => rfl
  | cons j js ih =>
    rw [inPlace, Point.set_set_coord, ih, ← Point.shift_eq_set, List.mapM_cons]

theorem fixedGradient_eq (f : Point α → Eval α σ α) (x : Point α) (h : α) :
    fixedGradient f x h = (probes x h).mapM f >>= fun values ↦ pure (slopes h values) := by
  rw [probes, List.mapM_cons, List.mapM_map]
  simp only [fixedGradient, inPlace_eq, bind_assoc, pure_bind, slopes, Eval.mapM_bind_pure]
  rfl

theorem fixedJacobian_eq (c : Point α → Eval α σ (Point α)) (x : Point α) (h : α) :
    fixedJacobian c x h = (do
      let start ← c x
      let moved ← ((List.range x.length).map fun j ↦ x.shift j h).mapM (alike c start.length)
      pure (columns h (start :: moved))) := by
  have hprobe : ∀ (start : Point α) (j : Nat), (do
      let moved ← c (x.shift j h)
      Eval.ofExcept (Check.arity moved.length 0 start.length)
      pure (quotients h moved start))
      = alike c start.length (x.shift j h) >>= fun moved ↦ pure (quotients h moved start) := by
    intro start j
    simp only [alike, bind_assoc, pure_bind]
  simp only [fixedJacobian, inPlace_eq, hprobe, Eval.mapM_bind_pure, bind_assoc, pure_bind, columns,
    List.mapM_map]
  rfl

/-! ## Automatic step

A routine is known by two equations only, those of `Forward.Routine`: it visits the probes in their
order, on a function that always answers, and returns the quotients of what it was told. Parked
faults are what makes a fallible function into one that it can visit. -/

theorem parkScalar_parks (f : Point α → Eval α σ α) : Parks (fun _ ↦ True) f (parkScalar f) where
  idle x p hp := by
    rcases hfault : p.fault with _ | fault
    · exact absurd hfault hp
    · simp only [parkScalar, hfault]
  answer x p b s hp _ hf := by
    simp only [parkScalar, hp, hf, and_true]
  park x p fault s hp _ hf := by
    simp only [parkScalar, hp, hf]

theorem parkVector_parks (c : Point α → Eval α σ (Point α)) (k : Nat) :
    Parks (fun p ↦ p.arity = some k) (alike c k) (parkVector c) where
  idle x p hp := by
    rcases hfault : p.fault with _ | fault
    · exact absurd hfault hp
    · simp only [parkVector, hfault]
  answer x p b s hp hk hf := by
    obtain ⟨values, s₁, hc, hf⟩ := Eval.bind_eq_ok.mp hf
    obtain ⟨_, s₂, hcheck, hf⟩ := Eval.bind_eq_ok.mp hf
    rw [Eval.ofExcept_apply, Check.arity] at hcheck
    rw [Eval.pure_apply] at hf
    cases hf
    split at hcheck
    · rename_i hlength
      cases hcheck
      refine ⟨?_, hk⟩
      simp only [parkVector, hp, hc, hk, if_pos hlength.symm]
    · cases hcheck
  park x p fault s hp hk hf := by
    rcases Eval.bind_eq_error.mp hf with hc | ⟨values, s₁, hc, hf⟩
    · simp only [parkVector, hp, hc]
    · rcases Eval.bind_eq_error.mp hf with hcheck | ⟨_, _, -, hf⟩
      · rw [Eval.ofExcept_apply, Check.arity] at hcheck
        split at hcheck
        · cases hcheck
        · rename_i hlength
          cases hcheck
          simp only [parkVector, hp, hc, hk, if_neg (Ne.symm hlength)]
      · cases hf

theorem autoGradient_apply (routine : Routine α) (f : Point α → Eval α σ α) (x : Point α) (s : σ) :
    autoGradient routine f x s =
      (let ((start, moved), p) := sweep (parkScalar f) x Step.automatic (Parked.start s)
      p.outcome (sweepQuotients start moved)) := by
  rw [autoGradient, routine.gradient_eq]
  rfl

theorem autoGradient_eq (routine : Routine α) (f : Point α → Eval α σ α) (x : Point α) :
    autoGradient routine f x = fixedGradient f x Step.automatic := by
  funext s
  have hsweep : sweep (parkScalar f) x Step.automatic
      = (probes x Step.automatic).mapM (parkScalar f) >>= fun values ↦
        pure (values.headD Scalar.undefined, values.tail) := by
    rw [probes, List.mapM_cons, List.mapM_map]
    rfl
  obtain ⟨hok, herror⟩ := (parkScalar_parks f).mapM (probes x Step.automatic)
    (p := Parked.start s) rfl trivial
  rw [fixedGradient_eq, autoGradient_apply, hsweep, Eval.state_bind_apply]
  rcases hrow : (probes x Step.automatic).mapM f s with ⟨fault | values, s₁⟩
  · rw [Eval.bind_of_error hrow]
    have hstate := herror fault s₁ hrow
    simp only [Eval.state_pure_apply, hstate]
    rfl
  · have hanswers := hok values s₁ hrow
    have hne : values.length = x.length + 1 :=
      (Eval.mapM_eq_ok.mp hrow).length_eq.trans (length_probes x _)
    rcases values with _ | ⟨start, moved⟩
    · cases hne
    · rw [Eval.bind_of_ok hrow, hanswers]
      rfl

theorem quotients_eq_map_range (h : α) {values start : Point α}
    (hlength : values.length = start.length) :
    (List.range start.length).map (fun i ↦ (values.coord i - start.coord i) / h)
      = quotients h values start := by
  refine List.ext_getElem ?_ fun i hi hi' ↦ ?_
  · rw [List.length_map, List.length_range, quotients, List.length_zipWith, hlength, Nat.min_self]
  · rw [List.length_map, List.length_range] at hi
    simp only [List.getElem_map, List.getElem_range, quotients, List.getElem_zipWith, Point.coord]
    rw [List.getD_eq_getElem _ _ hi, List.getD_eq_getElem _ _ (hlength ▸ hi)]

theorem rows_columns {h : α} {start : Point α} {moved : List (Point α)}
    (hlength : ∀ v ∈ moved, v.length = start.length) :
    (columns h (start :: moved)).rows = (List.range start.length).map fun j ↦
      moved.map fun v ↦ (v.coord j - start.coord j) / h := by
  refine List.map_congr_left fun j hj ↦ ?_
  rw [List.mem_range] at hj
  rw [List.map_map]
  refine List.map_congr_left fun v hv ↦ ?_
  rw [Function.comp_apply, ← quotients_eq_map_range h (hlength v hv), Point.coord,
    List.getD_eq_getElem _ _ (by rwa [List.length_map, List.length_range]), List.getElem_map,
    List.getElem_range]

/-- The rows that a routine gives are as wide as the first answer, so the derivative has a row for
each of its values. -/
theorem autoJacobian_apply (routine : Routine α) (c : Point α → Eval α σ (Point α)) (x : Point α)
    (s : σ) :
    autoJacobian routine c x s =
      (let ((start, moved), p) := sweep (parkVector c) x Step.automatic (Parked.start s)
      p.outcome (.ofColumns start.length (sweepRows start moved).rows)) := by
  rw [autoJacobian, routine.jacobian_eq]
  rfl

theorem autoJacobian_eq (routine : Routine α) (c : Point α → Eval α σ (Point α)) (x : Point α) :
    autoJacobian routine c x = fixedJacobian c x Step.automatic := by
  funext s
  let moves := (List.range x.length).map fun j ↦ x.shift j Step.automatic
  have hsweep : sweep (parkVector c) x Step.automatic = (do
      let start ← parkVector c x
      let moved ← moves.mapM (parkVector c)
      pure (start, moved)) := by
    rw [List.mapM_map]
    rfl
  rw [fixedJacobian_eq, autoJacobian_apply, hsweep, Eval.state_bind_apply]
  rcases hstart : c x s with ⟨fault | start, s₁⟩
  · have hfirst : (parkVector c x (Parked.start s)).2 = ⟨some fault, none, s₁⟩ := by
      simp only [parkVector, Parked.start, hstart]
    have hidle := (parkVector_parks c 0).mapM_idle moves (p := ⟨some fault, none, s₁⟩)
      (Option.some_ne_none fault)
    rw [Eval.bind_of_error hstart, hfirst, Eval.state_bind_apply]
    simp only [Eval.state_pure_apply, hidle]
    rfl
  · have hfirst : parkVector c x (Parked.start s)
        = (start, ⟨none, some start.length, s₁⟩) := by
      simp only [parkVector, Parked.start, hstart]
    obtain ⟨hok, herror⟩ := (parkVector_parks c start.length).mapM moves
      (p := ⟨none, some start.length, s₁⟩) rfl rfl
    rw [Eval.bind_of_ok hstart, hfirst, Eval.state_bind_apply]
    rcases hrow : moves.mapM (alike c start.length) s₁ with ⟨fault | moved, s₂⟩
    · rw [Eval.bind_of_error hrow]
      have hstate := herror fault s₂ hrow
      simp only [Eval.state_pure_apply, hstate]
      rfl
    · rw [Eval.bind_of_ok hrow, hok moved s₂ hrow]
      -- every answer is as long as the first one, so that reading by index is reading in step
      have hlength : ∀ values ∈ moved, values.length = start.length :=
        ((Eval.keeps_mapM fun p _ ↦ alike_keeps c start.length p) s₁ trivial).2 moved
          (by rw [hrow]) |>.2
      have hquotients : (sweepRows start moved).rows
          = moved.map fun values ↦ quotients Step.automatic values start :=
        List.map_congr_left fun values hvalues ↦ quotients_eq_map_range _ (hlength values hvalues)
      simp only [Eval.state_pure_apply]
      rw [hquotients]
      rfl

/-! ## Either step

With the length of the values settled, the step only enters as the distance by which a variable is
moved. -/

theorem jacobian_eq_fixed (c : Point α → Eval α σ (Point α)) (x : Point α) (step : Step α) :
    jacobian c x step = fixedJacobian c x step.size := by
  cases step with
  | fixed h => rfl
  | auto => exact autoJacobian_eq .standard c x

theorem gradient_eq (f : Point α → Eval α σ α) (x : Point α) (step : Step α) :
    gradient f x step
      = (probes x step.size).mapM f >>= fun values ↦ pure (slopes step.size values) := by
  cases step with
  | fixed h => exact fixedGradient_eq f x h
  | auto => exact (autoGradient_eq .standard f x).trans (fixedGradient_eq f x Step.automatic)

/-- Where a function has `k` values everywhere, the derivative depends on the answers alone. -/
theorem jacobian_eq {I : σ → Prop} {k : Nat} {c : Point α → Eval α σ (Point α)}
    (hc : ∀ p, Eval.Keeps I (c p) fun values ↦ values.length = k) (x : Point α) (step : Step α)
    {s : σ} (hs : I s) :
    jacobian c x step s
      = ((probes x step.size).mapM c >>= fun values ↦ pure (columns step.size values)) s := by
  have halike : ∀ p s, I s → alike c k p s = c p s := by
    intro p s hs
    have hanswer := (hc p s hs).2
    rcases hcall : c p s with ⟨fault | values, s₁⟩
    · rw [alike, Eval.bind_of_error hcall]
    · rw [hcall] at hanswer
      rw [alike, Eval.bind_of_ok hcall, Check.arity, if_pos (hanswer values rfl)]
      rfl
  rw [jacobian_eq_fixed, fixedJacobian_eq, probes, List.mapM_cons, bind_assoc]
  obtain ⟨hkept, hanswer⟩ := hc x s hs
  rcases hcall : c x s with ⟨fault | start, s₁⟩
  · rw [Eval.bind_of_error hcall, Eval.bind_of_error hcall]
  · rw [hcall] at hkept hanswer
    rw [Eval.bind_of_ok hcall, Eval.bind_of_ok hcall, hanswer start rfl, bind_assoc,
      Eval.bind_apply, Eval.bind_apply,
      Eval.mapM_congr (fun p _ ↦ (hc p).mono fun _ _ ↦ trivial) (fun p _ ↦ halike p) hkept]
    rfl

end Forward

end NonlinearProgram
