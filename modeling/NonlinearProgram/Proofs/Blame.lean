import NonlinearProgram.Proofs.Arities

/-!
# Which constraint is blamed

A constraint that has come to answer with another number of values is a fault of the request, and
the fault names a constraint and the two numbers. Where callbacks do not make up such faults
themselves, there always is a constraint that changed (`Model.Culprit`): those before it answered,
it answered at some of the points that it was asked for, each time with the number that is expected
of it, and then with another one. The two numbers are always those.

The constraint that is named is this one, as long as the number that is expected was fixed by a
probe. Without a probe it is the number of values at the first point, and only the differences for
a derivative ask for more than one point. They do not know which constraint they are taken of, and
name the first one, whichever it was (`Model.arityChanged_iff`).
-/

namespace NonlinearProgram

variable {α σ β : Type}

/-! ## Rows of constraints

A request is a row of parts, and it faults at the first part that does. The state of the callbacks
is all that goes from one part to the next. -/

theorem Eval.mapM_zipIdx_eq_error {ι : Type} {f : ι × ℕ → Eval α σ β} {xs : List ι} {s s' : σ}
    {fault : Fault α} :
    xs.zipIdx.mapM f s = (.error fault, s') ↔ ∃ i x bs s₁, xs[i]? = some x ∧
      Answered f (xs.zipIdx.take i) s bs s₁ ∧ f (x, i) s₁ = (.error fault, s') := by
  rw [mapM_eq_error]
  constructor
  · rintro ⟨before, p, after, bs, s₁, hsplit, hbefore, hp⟩
    have hget : xs.zipIdx[before.length]? = some p := by
      rw [hsplit, List.getElem?_append_right (Nat.le_refl _), Nat.sub_self,
        List.getElem?_cons_zero]
    rw [List.getElem?_zipIdx, Nat.zero_add] at hget
    obtain ⟨x, hx, rfl⟩ := Option.map_eq_some_iff.mp hget
    refine ⟨before.length, x, bs, s₁, hx, ?_, hp⟩
    rwa [hsplit, List.take_left]
  · rintro ⟨i, x, bs, s₁, hx, hbefore, hp⟩
    obtain ⟨hi, hget⟩ := List.getElem?_eq_some_iff.mp hx
    have hlt : i < xs.zipIdx.length := by rwa [List.length_zipIdx]
    have hpair : xs.zipIdx[i] = (x, i) := by rw [List.getElem_zipIdx, hget, Nat.zero_add]
    refine ⟨_, (x, i), xs.zipIdx.drop (i + 1), bs, s₁, ?_, hbefore, hp⟩
    rw [← hpair, ← List.drop_eq_getElem_cons hlt, List.take_append_drop]

/-- Calls in a row change the state of the callbacks alone. Induction on the row. -/
theorem Session.answered_callUser_iff {ι : Type} {f : ι → Eval α σ β} {xs : List ι}
    {s s' : Session α σ} {bs : List β} :
    Eval.Answered (fun x ↦ callUser (f x)) xs s bs s' ↔
      Eval.Answered f xs s.user bs s'.user ∧ s' = { s with user := s'.user } := by
  constructor
  · intro h
    induction h with
    | nil s => exact ⟨.nil _, rfl⟩
    | @cons x xs b bs s s₁ s₂ first _ ih =>
      obtain ⟨hrest, hs₂⟩ := ih
      obtain ⟨hanswer, rfl⟩ := Prod.mk.inj ((callUser_apply (f x) s).symm.trans first)
      exact ⟨.cons (Prod.ext hanswer rfl) hrest, hs₂⟩
  · rintro ⟨h, hs'⟩
    obtain ⟨u', rfl⟩ : ∃ u', s' = { s with user := u' } := ⟨_, hs'⟩
    simp only at h
    clear hs'
    generalize hs : s.user = u at h
    induction h generalizing s with
    | nil u =>
      subst hs
      exact .nil s
    | @cons x xs b bs u u₁ u₂ first _ ih =>
      subst hs
      exact .cons (callUser_of_eq first) (ih (s := { s with user := u₁ }) rfl)

/-! ## Constraints that change

A request asks a constraint at several points for a derivative, and at one for values. Both are
lists of points here, so that one notion of change serves for both: the constraint answered at the
points before with the expected number, and then it did not. -/

namespace Constraint

/-- The callbacks of a constraint do not blame a constraint for a change themselves. -/
structure Unblaming (c : Constraint α σ) : Prop where
  value : ∀ x u i expected found, (c.eval x u).1 ≠ .error (.arityChanged i expected found)
  derivative : ∀ derivative, c.derivative = some derivative → ∀ x u i expected found,
    (derivative x c.parameters u).1 ≠ .error (.arityChanged i expected found)

/-- A constraint answers at points in a row with the expected number of values, and at the next one
with another number. -/
def Changes (c : Constraint α σ) (before : List (Point α)) (x : Point α) (u u' : σ)
    (expected found : ℕ) : Prop :=
  ∃ values u₁ last, Eval.Answered (fun y ↦ c.eval y) before u values u₁ ∧
    (∀ v ∈ values, v.length = expected) ∧ c.eval x u₁ = (.ok last, u') ∧ last.length = found ∧
    found ≠ expected

theorem changes_cons {c : Constraint α σ} {x y : Point α} {points : List (Point α)} {u u₁ u' : σ}
    {first : Point α} {expected found : ℕ} (h : c.eval x u = (.ok first, u₁)) :
    c.Changes (x :: points) y u u' expected found ↔
      first.length = expected ∧ c.Changes points y u₁ u' expected found := by
  constructor
  · rintro ⟨_, u₂, last, hanswered, hlengths, hlast⟩
    cases hanswered with
    | cons hfirst hrest =>
      cases h.symm.trans hfirst
      obtain ⟨hlength, hlengths⟩ := List.forall_mem_cons.mp hlengths
      exact ⟨hlength, _, u₂, last, hrest, hlengths, hlast⟩
  · rintro ⟨hlength, values, u₂, last, hanswered, hlengths, hlast⟩
    exact ⟨first :: values, u₂, last, .cons h hanswered,
      List.forall_mem_cons.mpr ⟨hlength, hlengths⟩, hlast⟩

theorem not_changes_cons {c : Constraint α σ} {x y : Point α} {points : List (Point α)}
    {u u₁ u' : σ} {fault : Fault α} {expected found : ℕ} (h : c.eval x u = (.error fault, u₁)) :
    ¬c.Changes (x :: points) y u u' expected found := by
  rintro ⟨_, _, _, hanswered, -⟩
  cases hanswered with
  | cons hfirst _ => cases h.symm.trans hfirst

end Constraint

namespace Placed

variable {p : Placed α σ}

theorem answered_values_iff {points : List (Point α)} {s s' : Session α σ}
    {values : List (Point α)} :
    Eval.Answered p.values points s values s' ↔
      (Eval.Answered (fun y ↦ p.constraint.eval y) points s.user values s'.user ∧
        s' = { s with user := s'.user }) ∧ ∀ v ∈ values, v.length = p.arity := by
  rw [values_eq_counted, Forward.answered_counted_iff, Session.answered_callUser_iff]

theorem mapM_values_eq_arityChanged_iff (hp : p.constraint.Unblaming) {points : List (Point α)}
    {s s' : Session α σ} {i expected found : ℕ} :
    points.mapM p.values s = (.error (.arityChanged i expected found), s') ↔
      ∃ before y after, points = before ++ y :: after ∧ (i = p.index ∧ expected = p.arity) ∧
        p.constraint.Changes before y s.user s'.user expected found ∧
        s' = { s with user := s'.user } := by
  rw [Eval.mapM_eq_error]
  constructor
  · rintro ⟨before, y, after, values, s₁, hsplit, hbefore, hy⟩
    obtain ⟨⟨hanswered, hs₁⟩, hlengths⟩ := answered_values_iff.mp hbefore
    rw [values_eq_counted, Forward.counted_eq_error, Session.callUser_apply] at hy
    rcases hy with hy | ⟨last, hlast, hlength, hchanged⟩
    · exact absurd (Prod.mk.inj hy).1 (hp.value y _ i expected found)
    · cases hchanged
      obtain ⟨hanswer, rfl⟩ := Prod.mk.inj hlast
      refine ⟨before, y, after, hsplit, ⟨rfl, rfl⟩,
        ⟨values, s₁.user, last, hanswered, hlengths, Prod.ext hanswer rfl, rfl, hlength⟩, ?_⟩
      rw [hs₁]
  · rintro ⟨before, y, after, hsplit, ⟨rfl, rfl⟩,
      ⟨values, u₁, last, hanswered, hlengths, hlast, rfl, hne⟩, hs'⟩
    refine ⟨before, y, after, values, { s with user := u₁ }, hsplit,
      answered_values_iff.mpr ⟨⟨hanswered, rfl⟩, hlengths⟩, ?_⟩
    rw [values_of_ok (s := { s with user := u₁ }) hlast, if_neg hne, ← hs']

theorem values_eq_arityChanged_iff (hp : p.constraint.Unblaming) {x : Point α}
    {s s' : Session α σ} {i expected found : ℕ} :
    p.values x s = (.error (.arityChanged i expected found), s') ↔
      (i = p.index ∧ expected = p.arity) ∧ p.constraint.Changes [] x s.user s'.user expected found ∧
        s' = { s with user := s'.user } := by
  have hsingle : p.values x s = (.error (.arityChanged i expected found), s') ↔
      [x].mapM p.values s = (.error (.arityChanged i expected found), s') := by
    simp only [List.mapM_cons, List.mapM_nil, pure_bind, Eval.bind_pure_eq_error]
  rw [hsingle, mapM_values_eq_arityChanged_iff hp]
  constructor
  · rintro ⟨before, y, after, hsplit, h⟩
    obtain ⟨rfl, hy⟩ | ⟨-, hy⟩ := List.singleton_eq_append_iff.mp hsplit
    · cases hy
      exact h
    · cases hy
  · exact fun h ↦ ⟨[], x, [], rfl, h⟩

end Placed

/-! ## Constraints of a model

Whether a number of values is fixed decides what the values are compared with, and which constraint
is blamed. Each function of the model has one lemma for either case, and the lemmas agree where the
fault names the constraint itself. -/

namespace Model

variable {m : Model α σ} {c : Constraint α σ} {x : Point α} {s s' : Session α σ}
  {i index expected found : ℕ}

theorem constraintValues_of_none (hs : s.arity? index = none) (c : Constraint α σ)
    (x : Point α) : constraintValues index c x s = Session.callUser (c.eval x) s := by
  have hcall := Session.callUser_apply (c.eval x) s
  rw [constraintValues]
  rcases hanswer : (c.eval x s.user).1 with fault | values
  · rw [hanswer] at hcall
    rw [Eval.bind_of_error hcall, hcall]
  · rw [hanswer] at hcall
    have hs' : ({ s with user := (c.eval x s.user).2 } : Session α σ).arity? index = none := hs
    rw [Eval.bind_of_ok hcall, Eval.bind_of_ok (Eval.get_apply _), hcall]
    simp only [hs']
    rfl

theorem constraintValues_eq_arityChanged_iff (hc : c.Unblaming) :
    constraintValues index c x s = (.error (.arityChanged i expected found), s') ↔
      (i = index ∧ s.arity? index = some expected) ∧ c.Changes [] x s.user s'.user expected found ∧
        s' = { s with user := s'.user } := by
  rcases hk : s.arity? index with _ | k
  · rw [constraintValues_of_none hk, Session.callUser_apply]
    refine iff_of_false (fun h ↦ ?_) nofun
    exact hc.value x s.user i expected found (Prod.mk.inj h).1
  · have hcopy : (⟨c, index, k⟩ : Placed α σ).constraint.Unblaming := hc
    rw [constraintValues_eq hk, Placed.values_eq_arityChanged_iff hcopy, Option.some_inj,
      eq_comm (a := k)]

theorem alike_constraintValues (hs : s.arity? index = none) (c : Constraint α σ) (k : ℕ)
    (x : Point α) :
    Placed.values ⟨c, 0, k⟩ x s = Forward.alike (constraintValues index c) k x s := by
  rw [Forward.alike, Placed.values, Eval.bind_apply, Eval.bind_apply, constraintValues_of_none hs]

variable [Scalar α]

/-- Differences of a constraint without a fixed number of values hold the other points to the first
one. -/
theorem jacobian_of_none (hs : s.arity? index = none) (c : Constraint α σ) (x : Point α)
    (step : Step α) :
    Forward.jacobian (constraintValues index c) x step s = (do
      let start ← Session.callUser (c.eval x)
      let moved ← ((List.range x.length).map fun j ↦ x.shift j step.size).mapM
        (Placed.values ⟨c, 0, start.length⟩)
      pure (Forward.columns step.size (start :: moved))) s := by
  let free : Session α σ → Prop := fun t ↦ t.arity? index = none
  have hfree : ∀ t u, free t → free { t with user := u } := fun _ _ h ↦ h
  have hkeeps : ∀ k y, Eval.Keeps free (Placed.values ⟨c, 0, k⟩ y) fun _ ↦ True := fun k y ↦
    (Session.keeps_call hfree _).bind fun _ _ ↦
      (Eval.keeps_ofExcept fun _ _ ↦ trivial).bind fun _ _ ↦ Eval.keeps_pure trivial
  rw [Forward.jacobian_eq_fixed, Forward.fixedJacobian_eq, Eval.bind_apply, Eval.bind_apply,
    constraintValues_of_none hs]
  rcases hstart : Session.callUser (c.eval x) s with ⟨fault | start, s₁⟩
  · rfl
  · have hs₁ : free s₁ := (Session.keeps_call hfree _).of_eq hstart hs
    simp only
    rw [Eval.bind_apply, Eval.bind_apply, Eval.mapM_congr (fun y _ ↦ hkeeps start.length y)
      (fun y _ t ht ↦ (alike_constraintValues ht c start.length y).symm) hs₁]

theorem jacobian_eq_arityChanged_iff_of_none (hs : s.arity? index = none) (hc : c.Unblaming)
    (step : Step α) :
    Forward.jacobian (constraintValues index c) x step s
        = (.error (.arityChanged i expected found), s') ↔
      ∃ before y after, Forward.probes x step.size = before ++ y :: after ∧
        c.Changes before y s.user s'.user expected found ∧ s' = { s with user := s'.user } ∧
        before ≠ [] ∧ i = 0 := by
  rw [jacobian_of_none hs, Forward.probes]
  rcases hstart : c.eval x s.user with ⟨fault | start, u₁⟩
  · rw [Eval.bind_of_error (Session.callUser_of_eq hstart)]
    refine iff_of_false (fun h ↦ ?_) ?_
    · cases h
      exact hc.value x s.user i expected found (congrArg Prod.fst hstart)
    · rintro ⟨before, y, after, hsplit, hchanges, -, hne, -⟩
      obtain ⟨z, before, rfl⟩ := List.exists_cons_of_ne_nil hne
      obtain ⟨rfl, -⟩ := List.cons.inj hsplit
      exact Constraint.not_changes_cons hstart hchanges
  have hcopy : (⟨c, 0, start.length⟩ : Placed α σ).constraint.Unblaming := hc
  rw [Eval.bind_of_ok (Session.callUser_of_eq hstart), Eval.bind_pure_eq_error,
    Placed.mapM_values_eq_arityChanged_iff hcopy]
  constructor
  · rintro ⟨before, y, after, hsplit, ⟨rfl, rfl⟩, hchanges, hs'⟩
    refine ⟨x :: before, y, after, ?_, ?_, hs', List.cons_ne_nil _ _, rfl⟩
    · rw [hsplit, List.cons_append]
    · exact (Constraint.changes_cons hstart).mpr ⟨rfl, hchanges⟩
  · rintro ⟨before, y, after, hsplit, hchanges, hs', hne, rfl⟩
    obtain ⟨z, before, rfl⟩ := List.exists_cons_of_ne_nil hne
    obtain ⟨rfl, hrest⟩ := List.cons.inj hsplit
    obtain ⟨rfl, hchanges⟩ := (Constraint.changes_cons hstart).mp hchanges
    exact ⟨before, y, after, hrest, ⟨rfl, rfl⟩, hchanges, hs'⟩

theorem jacobian_eq_arityChanged_iff_of_some {k : ℕ} (hs : s.arity? index = some k)
    (hc : c.Unblaming) (step : Step α) :
    Forward.jacobian (constraintValues index c) x step s
        = (.error (.arityChanged i expected found), s') ↔
      ∃ before y after, Forward.probes x step.size = before ++ y :: after ∧
        c.Changes before y s.user s'.user expected found ∧ s' = { s with user := s'.user } ∧
        expected = k ∧ i = index := by
  obtain ⟨a, harities, ha⟩ := Option.bind_eq_some_iff.mp hs
  have hcopy : (⟨c, index, k⟩ : Placed α σ).constraint.Unblaming := hc
  rw [jacobian_constraintValues harities ha, Eval.bind_pure_eq_error,
    Placed.mapM_values_eq_arityChanged_iff hcopy]
  constructor
  · rintro ⟨before, y, after, hsplit, ⟨rfl, rfl⟩, hchanges, hs'⟩
    exact ⟨before, y, after, hsplit, hchanges, hs', rfl, rfl⟩
  · rintro ⟨before, y, after, hsplit, hchanges, hs', rfl, rfl⟩
    exact ⟨before, y, after, hsplit, ⟨rfl, rfl⟩, hchanges, hs'⟩

theorem constraintBlock_eq_arityChanged_iff (hc : c.Unblaming) :
    m.constraintBlock index c x s = (.error (.arityChanged i expected found), s') ↔
      c.derivative = none ∧ Forward.jacobian (constraintValues index c) x m.step s
        = (.error (.arityChanged i expected found), s') := by
  have hcheck : ∀ act : Eval α (Session α σ) (Matrix α), ¬∃ block s₁, act s = (.ok block, s₁) ∧
      m.checkBlock index block s₁ = (.error (.arityChanged i expected found), s') := by
    rintro act ⟨block, s₁, -, h⟩
    rw [checkBlock, Eval.bind_of_ok (Eval.get_apply s₁), Check.jacobian] at h
    split at h <;> cases h
  rw [constraintBlock_eq_bind, Eval.bind_eq_error, or_iff_left (hcheck _)]
  rcases hderivative : c.derivative with _ | derivative
  · exact (and_iff_right rfl).symm
  · refine iff_of_false (fun h ↦ ?_) fun h ↦ Option.some_ne_none derivative h.1
    change Session.callUser (derivative x c.parameters) s = _ at h
    rw [Session.callUser_apply] at h
    exact hc.derivative derivative hderivative x s.user i expected found (Prod.mk.inj h).1

/-! ## Who is blamed

The parts before the culprit answered, so they kept the arities they had, and the expected number of
the culprit is the one it had at the start of the request. -/

/-- Constraint `index` is the one that changed in a request that asks each constraint at `points`
for its part: those before it did their part, and it answered at some of the points with the
expected number of values, and then with another one. The expected number is the one that is fixed,
or else that of the first point. -/
def Culprit (m : Model α σ) (part : Constraint α σ × ℕ → Eval α (Session α σ) β)
    (points : List (Point α)) (s : Session α σ) (index expected found : ℕ) (s' : Session α σ) :
    Prop :=
  ∃ c parts s₁ before y after, m.constraints[index]? = some c ∧
    Eval.Answered part (m.constraints.zipIdx.take index) s parts s₁ ∧
    points = before ++ y :: after ∧ c.Changes before y s₁.user s'.user expected found ∧
    s' = { s₁ with user := s'.user } ∧
    (s.arity? index = some expected ∨ s.arity? index = none ∧ before ≠ [])

omit [Scalar α] in
theorem arity?_of_answered {part : Constraint α σ × ℕ → Eval α (Session α σ) β}
    (hpart : ∀ p, Eval.Keeps (fun t ↦ t.arities = s.arities) (part p) fun _ ↦ True)
    {row : List (Constraint α σ × ℕ)} {parts : List β} {s₁ : Session α σ}
    (h : Eval.Answered part row s parts s₁) (j : ℕ) : s₁.arity? j = s.arity? j := by
  rw [Session.arity?, Session.arity?, (h.forall₂ hpart rfl).1]

omit [Scalar α] in
theorem stackedValues_eq_arityChanged_iff (hm : ∀ c ∈ m.constraints, c.Unblaming) :
    m.stackedValues x s = (.error (.arityChanged i expected found), s') ↔
      m.Culprit (fun p ↦ constraintValues p.2 p.1 x) [x] s i expected found s' := by
  have harity : ∀ {row parts s₁}, Eval.Answered (fun p : Constraint α σ × ℕ ↦
      constraintValues p.2 p.1 x) row s parts s₁ → ∀ j, s₁.arity? j = s.arity? j := fun h ↦
    arity?_of_answered (fun p ↦ keeps_constraintValues (fun _ _ h ↦ h) p.2 p.1 x) h
  rw [stackedValues, Eval.bind_pure_eq_error, Eval.mapM_zipIdx_eq_error]
  constructor
  · rintro ⟨j, c, parts, s₁, hget, hbefore, hfault⟩
    obtain ⟨⟨rfl, hfixed⟩, hchanges, hs'⟩ :=
      (constraintValues_eq_arityChanged_iff (hm c (List.mem_of_getElem? hget))).mp hfault
    rw [harity hbefore] at hfixed
    exact ⟨c, parts, s₁, [], x, [], hget, hbefore, rfl, hchanges, hs', .inl hfixed⟩
  · rintro ⟨c, parts, s₁, before, y, after, hget, hbefore, hsplit, hchanges, hs', hexpected⟩
    -- there is one point, so that nothing was asked for before it
    obtain ⟨rfl, rfl⟩ : before = [] ∧ y = x := by
      obtain ⟨rfl, hy⟩ | ⟨-, hy⟩ := List.singleton_eq_append_iff.mp hsplit
      · exact ⟨rfl, (List.cons.inj hy).1⟩
      · cases hy
    have hfixed := hexpected.resolve_right fun h ↦ h.2 rfl
    rw [← harity hbefore] at hfixed
    exact ⟨i, c, parts, s₁, hget, hbefore, (constraintValues_eq_arityChanged_iff
      (hm c (List.mem_of_getElem? hget))).mpr ⟨⟨rfl, hfixed⟩, hchanges, hs'⟩⟩

theorem stackedBlocks_eq_arityChanged_iff (hm : ∀ c ∈ m.constraints, c.Unblaming) :
    m.stackedBlocks x s = (.error (.arityChanged i expected found), s') ↔
      ∃ j, m.Culprit (fun p ↦ m.constraintBlock p.2 p.1 x) (Forward.probes x m.step.size) s j
          expected found s' ∧
        (m.constraints[j]?.bind Constraint.derivative).isNone ∧
        i = if (s.arity? j).isSome then j else 0 := by
  have harity : ∀ {row parts s₁}, Eval.Answered (fun p : Constraint α σ × ℕ ↦
      m.constraintBlock p.2 p.1 x) row s parts s₁ → ∀ j, s₁.arity? j = s.arity? j := fun h ↦
    arity?_of_answered (fun p ↦ keeps_constraintBlock (fun _ _ h ↦ h) p.2 p.1 x) h
  rw [stackedBlocks, Eval.bind_pure_eq_error, Eval.mapM_zipIdx_eq_error]
  constructor
  · rintro ⟨j, c, parts, s₁, hget, hbefore, hfault⟩
    have hc := hm c (List.mem_of_getElem? hget)
    obtain ⟨hderivative, hjacobian⟩ := (constraintBlock_eq_arityChanged_iff hc).mp hfault
    have hnone : (m.constraints[j]?.bind Constraint.derivative).isNone := by
      rw [hget, Option.bind_some, hderivative, Option.isNone_none]
    rcases hk : s₁.arity? j with _ | k
    · obtain ⟨before, y, after, hsplit, hchanges, hs', hne, rfl⟩ :=
        (jacobian_eq_arityChanged_iff_of_none hk hc m.step).mp hjacobian
      rw [harity hbefore] at hk
      refine ⟨j, ⟨c, parts, s₁, before, y, after, hget, hbefore, hsplit, hchanges, hs',
        .inr ⟨hk, hne⟩⟩, hnone, ?_⟩
      rw [hk, Option.isSome_none, if_neg Bool.false_ne_true]
    · obtain ⟨before, y, after, hsplit, hchanges, hs', rfl, rfl⟩ :=
        (jacobian_eq_arityChanged_iff_of_some hk hc m.step).mp hjacobian
      rw [harity hbefore] at hk
      refine ⟨_, ⟨c, parts, s₁, before, y, after, hget, hbefore, hsplit, hchanges, hs',
        .inl hk⟩, hnone, ?_⟩
      rw [hk, Option.isSome_some, if_pos rfl]
  · rintro ⟨j, ⟨c, parts, s₁, before, y, after, hget, hbefore, hsplit, hchanges, hs', hexpected⟩,
      hnone, rfl⟩
    have hc := hm c (List.mem_of_getElem? hget)
    rw [hget, Option.bind_some, Option.isNone_iff_eq_none] at hnone
    refine ⟨j, c, parts, s₁, hget, hbefore,
      (constraintBlock_eq_arityChanged_iff hc).mpr ⟨hnone, ?_⟩⟩
    rcases hexpected with hk | ⟨hk, hne⟩
    · rw [hk, Option.isSome_some, if_pos rfl]
      rw [← harity hbefore] at hk
      exact (jacobian_eq_arityChanged_iff_of_some hk hc m.step).mpr
        ⟨before, y, after, hsplit, hchanges, hs', rfl, rfl⟩
    · rw [hk, Option.isSome_none, if_neg Bool.false_ne_true]
      rw [← harity hbefore] at hk
      exact (jacobian_eq_arityChanged_iff_of_none hk hc m.step).mpr
        ⟨before, y, after, hsplit, hchanges, hs', hne, rfl⟩

/-- **Who is blamed for a change.** A request for values is at fault for a change exactly where a
constraint has changed, and names this constraint. So is a request for derivatives, among the
constraints without a derivative of their own; but it names the constraint only if its number of
values is fixed, and else the first one. -/
theorem arityChanged_iff (hm : ∀ c ∈ m.constraints, c.Unblaming) (x : Point α)
    (s s' : Session α σ) (i expected found : ℕ) :
    (m.stackedValues x s = (.error (.arityChanged i expected found), s') ↔
      m.Culprit (fun p ↦ constraintValues p.2 p.1 x) [x] s i expected found s') ∧
    (m.stackedBlocks x s = (.error (.arityChanged i expected found), s') ↔
      ∃ j, m.Culprit (fun p ↦ m.constraintBlock p.2 p.1 x) (Forward.probes x m.step.size) s j
          expected found s' ∧
        (m.constraints[j]?.bind Constraint.derivative).isNone ∧
        i = if (s.arity? j).isSome then j else 0) :=
  ⟨stackedValues_eq_arityChanged_iff hm, stackedBlocks_eq_arityChanged_iff hm⟩

/-- A constraint with one value, before one that has two beyond zero. -/
def secondWidening : Model Float Unit where
  evaluator := .differences fun x _ ↦ pure (x.coord 0)
  parameters := ∅
  constraints :=
    [{ kind := .equality, value := fun x _ ↦ pure [x.coord 0] },
     { kind := .equality
       value := fun x _ ↦ pure (if 0.0 < x.coord 0 then [x.coord 0, 1.0] else [x.coord 0]) }]
  step := .fixed 1.0
  n := 1

theorem secondWidening_unblaming : ∀ c ∈ secondWidening.constraints, c.Unblaming := by
  intro c hc
  rcases List.mem_cons.mp hc with rfl | hc
  · exact ⟨nofun, nofun⟩
  · cases List.mem_singleton.mp hc
    exact ⟨nofun, nofun⟩

theorem arityChanged_iff_secondWidening : ∃ b s₁ s₂,
    secondWidening.probe [0.0] { user := () } = (.ok b, s₁) ∧
      secondWidening.stackedBlocks [0.0] s₁ = (.error (.arityChanged 1 1 2), s₂) ∧
      (∃ j, secondWidening.Culprit (fun p ↦ secondWidening.constraintBlock p.2 p.1 [0.0])
          (Forward.probes [0.0] 1.0) s₁ j 1 2 s₂ ∧
        (secondWidening.constraints[j]?.bind Constraint.derivative).isNone ∧
        1 = if (s₁.arity? j).isSome then j else 0) :=
  ⟨_, _, _, rfl, rfl,
    ((arityChanged_iff secondWidening_unblaming [0.0] _ _ 1 1 2).2).mp rfl⟩

/-- Without a probe the first constraint is blamed for the change of the second one. -/
theorem stackedBlocks_secondWidening :
    (secondWidening.stackedBlocks [0.0] { user := () }).1 = .error (.arityChanged 0 1 2) ∧
      (∀ c, secondWidening.constraints[0]? = some c →
        ∀ x u, ∃ value, c.eval x u = (.ok [value], u)) ∧
      (∀ c, secondWidening.constraints[1]? = some c → c.Changes [[0.0]] [1.0] () () 1 2) := by
  refine ⟨rfl, fun c hc x u ↦ ?_, fun c hc ↦ ?_⟩
  · cases hc
    exact ⟨_, rfl⟩
  · cases hc
    exact ⟨[[0.0]], (), [1.0, 1.0], .cons rfl (.nil ()), fun v hv ↦ List.mem_singleton.mp hv ▸ rfl,
      rfl, rfl, by decide⟩

end Model

end NonlinearProgram
