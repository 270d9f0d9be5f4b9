import Mathlib.Algebra.BigOperators.Group.List.Lemmas
import Mathlib.Algebra.GroupWithZero.Nat
import NonlinearProgram.Proofs.Upkeep

/-!
# Stacked rows

Four loops number the rows of a problem, each on its own: the probe that sets up their bounds, the
values, the derivative blocks, and the differences that stand for a missing block. From the first
successful probe on they agree. Whatever is asked of the model after it, and whatever its callbacks
return by then, each constraint answers with as many rows as it had at the probe or is at fault, and
its rows are in the place in which the probe put their bounds (`Model.coherent_serve`).

A constraint with its place and number of rows is a `Placed`; `Placed.values` and `Placed.block` are
what it contributes to a stack, the latter as its callback has it or as the difference quotients of
its values. `Model.Stacks` says that a request puts such contributions below one another, and that
the first one that faults ends it.
-/

namespace NonlinearProgram

variable {α σ β γ : Type}

/-! ## Parts of a stack

Where the rows of a constraint are depends on the constraints before it by their numbers of rows
only. So a place in a stack is a part of a list, at a start that is a sum of lengths. -/

namespace Stack

/-- Part `i` of rows that are made of parts of the given lengths: the rows behind those of the parts
before it. -/
def part (arities : List ℕ) (i : ℕ) (rows : List β) : List β :=
  (rows.take (arities.take (i + 1)).sum).drop (arities.take i).sum

theorem part_flatten {parts : List (List β)} {arities : List ℕ}
    (harities : parts.map List.length = arities) {i : ℕ} {p : List β} (hp : parts[i]? = some p) :
    part arities i parts.flatten = p := by
  obtain ⟨hi, rfl⟩ := List.getElem?_eq_some_iff.mp hp
  rw [part, ← harities]
  exact List.drop_take_succ_flatten_eq_getElem _ _ hi

theorem length_flatten {parts : List (List β)} {arities : List ℕ}
    (harities : parts.map List.length = arities) : parts.flatten.length = arities.sum := by
  rw [List.length_flatten, harities]

theorem part_cons_zero (a : ℕ) (arities : List ℕ) (rows : List β) :
    part (a :: arities) 0 rows = rows.take a := by
  simp [part]

theorem part_cons_succ (a : ℕ) (arities : List ℕ) (i : ℕ) (rows : List β) :
    part (a :: arities) (i + 1) rows = part arities i (rows.drop a) := by
  rw [part, part, List.take_succ_cons, List.take_succ_cons, List.sum_cons, List.sum_cons,
    ← List.drop_drop, List.drop_take, Nat.add_sub_cancel_left]

/-- The parts of rows, one after the other, are the rows. Induction on the lengths of the parts. -/
theorem flatMap_part {arities : List ℕ} {rows : List β} (h : arities.sum = rows.length) :
    (List.range arities.length).flatMap (fun i ↦ part arities i rows) = rows := by
  induction arities generalizing rows with
  | nil => exact (List.length_eq_zero_iff.mp h.symm).symm
  | cons a arities ih =>
    have hrest : arities.sum = (rows.drop a).length := by
      rw [List.sum_cons] at h
      rw [List.length_drop]
      omega
    rw [List.length_cons, List.range_succ_eq_map, List.flatMap_cons, part_cons_zero,
      List.flatMap_map]
    simp only [part_cons_succ]
    rw [ih hrest, List.take_append_drop]

theorem length_part {arities : List ℕ} {rows : List β} (h : arities.sum = rows.length) (i : ℕ) :
    (part arities i rows).length = arities.getD i 0 := by
  induction arities generalizing rows i with
  | nil => simp [part]
  | cons a arities ih =>
    rw [List.sum_cons] at h
    cases i with
    | zero =>
      rw [part_cons_zero, List.length_take, List.getD_cons_zero]
      omega
    | succ i =>
      rw [part_cons_succ, List.getD_cons_succ]
      refine ih ?_ i
      rw [List.length_drop]
      omega

theorem getElem?_part {arities : List ℕ} {i j : ℕ} (hj : j < arities.getD i 0) (rows : List β) :
    (part arities i rows)[j]? = rows[(arities.take i).sum + j]? := by
  induction arities generalizing rows i with
  | nil => exact absurd hj (Nat.not_lt_zero j)
  | cons a arities ih =>
    cases i with
    | zero =>
      rw [List.getD_cons_zero] at hj
      rw [part_cons_zero, List.getElem?_take_of_lt hj, List.take_zero, List.sum_nil, Nat.zero_add]
    | succ i =>
      rw [List.getD_cons_succ] at hj
      rw [part_cons_succ, ih hj, List.getElem?_drop, List.take_succ_cons, List.sum_cons,
        Nat.add_assoc]

theorem map_part {γ : Type} (f : β → γ) (arities : List ℕ) (i : ℕ) (rows : List β) :
    part arities i (rows.map f) = (part arities i rows).map f := by
  rw [part, part, List.map_drop, List.map_take]

theorem part_range (arities : List ℕ) (i : ℕ) :
    part arities i (List.range arities.sum)
      = (List.range (arities.getD i 0)).map ((arities.take i).sum + ·) := by
  induction arities generalizing i with
  | nil => simp [part]
  | cons a arities ih =>
    rw [List.sum_cons, List.range_add]
    cases i with
    | zero =>
      rw [part_cons_zero, List.take_left' List.length_range]
      simp
    | succ i =>
      rw [part_cons_succ, List.drop_left' List.length_range, map_part, ih, List.map_map]
      simp [Function.comp_def, Nat.add_assoc]

end Stack

/-! ## Bounds of rows

The probe counts first and makes bounds afterwards, of as many rows as it counted. -/

theorem RowBounds.map_length_replicate {kinds : List ConstraintKind} {arities : List ℕ}
    (h : kinds.length = arities.length) (bound : ConstraintKind → α) :
    ((kinds.zip arities).map fun p ↦ List.replicate p.2 (bound p.1)).map List.length
      = arities := by
  rw [List.map_map]
  refine Eq.trans (List.map_congr_left fun p _ ↦ List.length_replicate) ?_
  exact List.map_snd_zip h.ge

/-- A constraint bounds as many rows as it has, in its place, each as its kind asks. -/
theorem RowBounds.part_ofArities {kinds : List ConstraintKind} {arities : List ℕ}
    (h : kinds.length = arities.length) (bound : ConstraintKind → α) {i m : ℕ}
    {kind : ConstraintKind} (hkind : kinds[i]? = some kind) (hm : arities[i]? = some m) :
    Stack.part arities i ((kinds.zip arities).flatMap fun p ↦ List.replicate p.2 (bound p.1))
      = List.replicate m (bound kind) := by
  refine Stack.part_flatten (map_length_replicate h bound) ?_
  have hzip : (kinds.zip arities)[i]? = some (kind, m) :=
    List.getElem?_zip_eq_some.mpr ⟨hkind, hm⟩
  rw [List.getElem?_map, hzip]
  rfl

theorem RowBounds.lower_ofArities [Scalar α] {kinds : List ConstraintKind} {arities : List ℕ}
    (h : kinds.length = arities.length) :
    (ofArities kinds arities : RowBounds α).lower
      = (kinds.zip arities).flatMap fun p ↦ List.replicate p.2 0.0 := by
  have hzip : (kinds.zip arities).map Prod.snd = arities := List.map_snd_zip h.ge
  conv_lhs => rw [← hzip]
  exact List.flatMap_map ..

theorem RowBounds.length_ofArities [Scalar α] {kinds : List ConstraintKind} {arities : List ℕ}
    (h : kinds.length = arities.length) :
    (ofArities kinds arities : RowBounds α).lower.length = arities.sum ∧
      (ofArities kinds arities : RowBounds α).upper.length = arities.sum := by
  rw [lower_ofArities h]
  exact ⟨Stack.length_flatten (map_length_replicate h fun _ ↦ (0.0 : α)),
    Stack.length_flatten (map_length_replicate h ConstraintKind.upper)⟩

theorem Constraint.probe_eq [Scalar α] (cs : List (Constraint α σ)) (x : Point α) :
    Constraint.probe cs x = cs.mapM (fun c ↦ c.eval x) >>= fun values ↦
      pure (.ofArities (cs.map Constraint.kind) (values.map List.length)) := by
  rw [probe, Eval.mapM_bind_pure]
  simp only [bind_assoc, pure_bind]

/-- A successful probe counts the values of each constraint. -/
theorem Constraint.probe_eq_ok [Scalar α] {cs : List (Constraint α σ)} {x : Point α} {s s' : σ}
    {b : RowBounds α} (h : Constraint.probe cs x s = (.ok b, s')) :
    b = .ofArities (cs.map Constraint.kind) b.arities ∧ b.arities.length = cs.length := by
  rw [probe_eq] at h
  obtain ⟨values, hrow, rfl⟩ := Eval.bind_pure_eq_ok.mp h
  exact ⟨rfl, (List.length_map _).trans (Eval.mapM_eq_ok.mp hrow).length_eq⟩

/-! ## What a constraint contributes -/

/-- A constraint with its place in the list and its number of rows. -/
structure Placed (α σ : Type) where
  constraint : Constraint α σ
  index : ℕ
  arity : ℕ

/-- The constraints of a model with the given numbers of rows. -/
def Model.placed (m : Model α σ) (arities : List ℕ) : List (Placed α σ) :=
  m.constraints.zipIdx.map fun p ↦ ⟨p.1, p.2, arities.getD p.2 0⟩

namespace Placed

/-- The values that the callback returns, if their number is right. -/
def values (p : Placed α σ) (x : Point α) : Eval α (Session α σ) (Point α) := do
  let values ← Session.callUser (p.constraint.eval x)
  Eval.ofExcept (Check.arity values.length p.index p.arity)
  pure values

/-- The derivative that the callback returns, if its shape is right, or else the difference
quotients of the values. -/
def block [Scalar α] (p : Placed α σ) (step : Step α) (n : ℕ) (x : Point α) :
    Eval α (Session α σ) (Matrix α) :=
  match p.constraint.derivative with
  | some derivative => do
    let block ← Session.callUser (derivative x p.constraint.parameters)
    Eval.ofExcept (Check.jacobian block p.index p.arity n)
    pure block
  | none => do
    let values ← (Forward.probes x step.size).mapM p.values
    pure (Forward.columns step.size values)

end Placed

namespace Placed

variable {I : Session α σ → Prop} {n : ℕ} (hI : Session.Stable n I) (p : Placed α σ)

include hI

theorem keeps_values (x : Point α) :
    Eval.Keeps I (p.values x) fun values ↦ values.length = p.arity :=
  (Session.keeps_call hI.user _).bind fun values _ ↦
    (Eval.keeps_check_arity values.length p.index p.arity).bind fun _ hlength ↦
      Eval.keeps_pure hlength

theorem keeps_block [Scalar α] (step : Step α) {x : Point α} (hx : x.length = n) :
    Eval.Keeps I (p.block step n x) fun block ↦ block.shape = (p.arity, n) := by
  rw [block]
  cases p.constraint.derivative with
  | some derivative =>
    exact (Session.keeps_call hI.user _).bind fun block _ ↦
      (Eval.keeps_check_jacobian block p.index p.arity n).bind fun _ hshape ↦
        Eval.keeps_pure hshape
  | none =>
    refine (Eval.keeps_mapM fun y _ ↦ keeps_values hI p y).bind fun values hvalues ↦
      Eval.keeps_pure ?_
    have hlength : values.length = n + 1 := by
      rw [hvalues.1, Forward.length_probes, hx]
    have hne : values ≠ [] := List.ne_nil_of_length_eq_add_one hlength
    rw [Forward.shape_columns hne hvalues.2, hlength, Nat.add_sub_cancel]

end Placed

namespace Model

variable {m : Model α σ} {a : List ℕ}

theorem placed_map_arity (h : a.length = m.constraints.length) :
    (m.placed a).map Placed.arity = a := by
  refine List.ext_getElem ?_ fun i hi hi' ↦ ?_
  · simp [placed, h]
  · simp [placed, hi']

/-! ## Agreement with the arities

With arities in the session a request is one on placed constraints. The arity that is looked up for
a constraint by its index is the one that it was placed with, so each of the loops can be written as
one over the placed constraints. -/

theorem constraintValues_eq {i k : ℕ} {s : Session α σ} (hk : s.arity? i = some k)
    (c : Constraint α σ) (x : Point α) :
    constraintValues i c x s = Placed.values ⟨c, i, k⟩ x s := by
  have hcall := Session.callUser_apply (c.eval x) s
  rw [constraintValues, Placed.values]
  rcases hanswer : (c.eval x s.user).1 with fault | values
  · rw [hanswer] at hcall
    rw [Eval.bind_of_error hcall, Eval.bind_of_error hcall]
  · rw [hanswer] at hcall
    rw [Eval.bind_of_ok hcall, Eval.bind_of_ok hcall, Eval.bind_of_ok (Eval.get_apply _)]
    have hk' : ({ s with user := (c.eval x s.user).2 } : Session α σ).arity? i = some k := hk
    simp only [hk']

theorem arity?_of_arities {s : Session α σ} (hs : s.arities = some a) {i k : ℕ}
    (hk : a[i]? = some k) : s.arity? i = some k := by
  rw [Session.arity?, hs]
  exact hk

section Blocks

variable [Scalar α] {s : Session α σ}

theorem jacobian_constraintValues (hs : s.arities = some a) {i k : ℕ} (hk : a[i]? = some k)
    (c : Constraint α σ) (x : Point α) (step : Step α) :
    Forward.jacobian (constraintValues i c) x step s
      = ((Forward.probes x step.size).mapM (Placed.values ⟨c, i, k⟩) >>=
          fun values ↦ pure (Forward.columns step.size values)) s := by
  let fixed : Session α σ → Prop := fun t ↦ t.arities = some a
  have hstable : Session.Stable x.length fixed := Session.stable_arities x.length a
  have heq : ∀ y t, fixed t → constraintValues i c y t = Placed.values ⟨c, i, k⟩ y t :=
    fun y t ht ↦ constraintValues_eq (arity?_of_arities ht hk) c y
  have hkeeps : ∀ y, Eval.Keeps fixed (constraintValues i c y) fun values ↦ values.length = k := by
    intro y t ht
    rw [heq y t ht]
    exact Placed.keeps_values hstable ⟨c, i, k⟩ y t ht
  rw [Forward.jacobian_eq hkeeps x step hs, Eval.bind_apply, Eval.bind_apply,
    Eval.mapM_congr (fun y _ ↦ (Placed.keeps_values hstable ⟨c, i, k⟩ y).mono fun _ _ ↦ trivial)
      (fun y _ ↦ heq y) hs]

theorem constraintBlock_eq (hs : s.arities = some a) {i k : ℕ} (hk : a[i]? = some k)
    (c : Constraint α σ) {x : Point α} (hx : x.length = m.n) :
    m.constraintBlock i c x s = Placed.block ⟨c, i, k⟩ m.step m.n x s := by
  rcases hderivative : c.derivative with _ | derivative
  · have hjacobian := jacobian_constraintValues hs hk c x m.step
    obtain ⟨hkept, hshape⟩ :=
      Placed.keeps_block (Session.stable_arities m.n a) ⟨c, i, k⟩ m.step hx s hs
    simp only [Placed.block, hderivative] at hkept hshape
    simp only [constraintBlock, Placed.block, hderivative]
    rcases hblock : ((Forward.probes x m.step.size).mapM (Placed.values ⟨c, i, k⟩) >>=
        fun values ↦ pure (Forward.columns m.step.size values)) s with ⟨fault | block, s₁⟩
    · rw [Eval.bind_of_error (hjacobian.trans hblock)]
    · rw [hblock] at hkept hshape
      -- quotients have the right shape from their making, so that the check behind them passes
      have hcheck : Check.jacobian block i k m.n = .ok () :=
        if_pos (Prod.mk.inj (hshape block rfl))
      rw [Eval.bind_of_ok (hjacobian.trans hblock), Eval.bind_of_ok (Eval.get_apply _)]
      simp only [arity?_of_arities hkept hk, Option.getD_some, hcheck]
      rfl
  · have hcall := Session.callUser_apply (derivative x c.parameters) s
    simp only [constraintBlock, Placed.block, hderivative]
    rcases hanswer : (derivative x c.parameters s.user).1 with fault | block
    · rw [hanswer] at hcall
      rw [Eval.bind_of_error hcall, Eval.bind_of_error hcall]
    · rw [hanswer] at hcall
      rw [Eval.bind_of_ok hcall, Eval.bind_of_ok hcall, Eval.bind_of_ok (Eval.get_apply _)]
      have hk' := arity?_of_arities (s := { s with user := (derivative x c.parameters s.user).2 })
        hs hk
      simp only [hk', Option.getD_some]

end Blocks

/-! ## Stacked requests

Two of the loops are requests that stack. They differ in what a placed constraint contributes, and
agree in when they end and in how the contributions are put together. -/

/-- A request that stacks what the constraints contribute. It answers where all of them do; the
first one that faults ends it, at the state that it left, so that none behind it is called. -/
structure Stacks (request : Eval α (Session α σ) γ) (part : Placed α σ → Eval α (Session α σ) β)
    (assemble : List β → γ) (placed : List (Placed α σ)) (s : Session α σ) : Prop where
  ok : ∀ c s', request s = (.ok c, s') ↔
    ∃ parts, Eval.Answered part placed s parts s' ∧ c = assemble parts
  error : ∀ fault s', request s = (.error fault, s') ↔
    ∃ before p after parts s₁, placed = before ++ p :: after ∧
      Eval.Answered part before s parts s₁ ∧ part p s₁ = (.error fault, s')

theorem stacks_of_eq {request : Eval α (Session α σ) γ} {part : Placed α σ → Eval α (Session α σ) β}
    {assemble : List β → γ} {placed : List (Placed α σ)} {s : Session α σ}
    (h : request s = (placed.mapM part >>= fun parts ↦ pure (assemble parts)) s) :
    Stacks request part assemble placed s where
  ok c s' := by
    rw [h, Eval.bind_pure_eq_ok]
    simp only [Eval.mapM_eq_ok]
  error fault s' := by
    rw [h, Eval.bind_pure_eq_error, Eval.mapM_eq_error]

theorem getElem?_arities (harities : a.length = m.constraints.length) {p : Constraint α σ × ℕ}
    (hp : p ∈ m.constraints.zipIdx) : a[p.2]? = some (a.getD p.2 0) := by
  have hlt : p.2 < a.length := by
    rw [harities]
    exact (List.getElem?_eq_some_iff.mp (List.mem_zipIdx_iff_getElem?.mp hp)).1
  rw [List.getElem?_eq_getElem hlt, List.getD_eq_getElem _ _ hlt]

theorem mapM_zipIdx_eq (harities : a.length = m.constraints.length) {s : Session α σ}
    (hs : s.arities = some a) {request : Constraint α σ × ℕ → Eval α (Session α σ) β}
    {part : Placed α σ → Eval α (Session α σ) β}
    (hkeeps : ∀ p, Eval.Keeps (fun t : Session α σ ↦ t.arities = some a) (part p) fun _ ↦ True)
    (heq : ∀ c i k t, t.arities = some a → a[i]? = some k →
      request (c, i) t = part ⟨c, i, k⟩ t) :
    m.constraints.zipIdx.mapM request s = (m.placed a).mapM part s := by
  rw [placed, List.mapM_map]
  exact Eval.mapM_congr (fun p _ ↦ hkeeps _)
    (fun p hp t ht ↦ heq p.1 p.2 _ t ht (getElem?_arities harities hp)) hs

theorem stackedValues_eq (harities : a.length = m.constraints.length) {s : Session α σ}
    (hs : s.arities = some a) (x : Point α) :
    m.stackedValues x s
      = ((m.placed a).mapM (fun p : Placed α σ ↦ p.values x) >>=
          fun parts ↦ pure parts.flatten) s := by
  rw [stackedValues, Eval.bind_apply, Eval.bind_apply, mapM_zipIdx_eq harities hs]
  · exact fun p ↦ (Placed.keeps_values (Session.stable_arities m.n a) p x).mono fun _ _ ↦ trivial
  · exact fun c i k t ht hk ↦ constraintValues_eq (arity?_of_arities ht hk) c x

theorem stackedBlocks_eq [Scalar α] (harities : a.length = m.constraints.length)
    {s : Session α σ} (hs : s.arities = some a) {x : Point α} (hx : x.length = m.n) :
    m.stackedBlocks x s = ((m.placed a).mapM (fun p : Placed α σ ↦ p.block m.step m.n x) >>=
      fun parts ↦ pure (Matrix.stack m.n parts)) s := by
  rw [stackedBlocks, Eval.bind_apply, Eval.bind_apply, mapM_zipIdx_eq harities hs]
  · exact fun p ↦ (Placed.keeps_block (Session.stable_arities m.n a) p m.step hx).mono
      fun _ _ ↦ trivial
  · exact fun c i k t ht hk ↦ constraintBlock_eq ht hk c hx

theorem stacks_values (harities : a.length = m.constraints.length) {s : Session α σ}
    (hs : s.arities = some a) (x : Point α) :
    Stacks (m.stackedValues x) (fun p ↦ p.values x) List.flatten (m.placed a) s :=
  stacks_of_eq (stackedValues_eq harities hs x)

theorem stacks_blocks [Scalar α] (harities : a.length = m.constraints.length) {s : Session α σ}
    (hs : s.arities = some a) {x : Point α} (hx : x.length = m.n) :
    Stacks (m.stackedBlocks x) (fun p ↦ p.block m.step m.n x) (Matrix.stack m.n) (m.placed a)
      s :=
  stacks_of_eq (stackedBlocks_eq harities hs hx)

/-! ## Coherence

Bounds come from the probe, and values and blocks from later requests, between which any others may
lie. What connects them are the arities, which the first successful probe fixes and no request takes
back. -/

theorem map_length_eq {f : β → ℕ} (harities : a.length = m.constraints.length) {parts : List β}
    (h : List.Forall₂ (fun p part ↦ f part = p.arity) (m.placed a) parts) :
    parts.map f = a := by
  rw [← placed_map_arity harities]
  have hmap : List.Forall₂ Eq ((m.placed a).map Placed.arity) (parts.map f) :=
    List.forall₂_map_left_iff.mpr (List.forall₂_map_right_iff.mpr (h.imp fun _ _ heq ↦ heq.symm))
  rw [List.forall₂_eq_eq_eq] at hmap
  exact hmap.symm

variable [Scalar α]

/-- All that concerns rows numbers them in one way: their bounds, their values and their derivative
have the rows of each constraint in the same place. -/
structure Coherent (m : Model α σ) (b : RowBounds α) (s : Session α σ) : Prop where
  /-- Each constraint has a number of rows, and the session knows the number of all of them. -/
  arities : b.arities.length = m.constraints.length ∧ s.rowCount? = some b.arities.sum
  /-- There are bounds for all rows, those of a constraint as its kind asks. -/
  bounds : b.lower.length = b.arities.sum ∧ b.upper.length = b.arities.sum ∧
    ∀ (i : ℕ) (c : Constraint α σ) (k : ℕ), m.constraints[i]? = some c → b.arities[i]? = some k →
      Stack.part b.arities i b.lower = List.replicate k 0.0 ∧
      Stack.part b.arities i b.upper = List.replicate k c.kind.upper
  /-- Values are those of the constraints in order, or the first fault among them. -/
  values : ∀ x, Stacks (m.stackedValues x) (fun p ↦ p.values x) List.flatten (m.placed b.arities) s
  /-- There is a value for each row, and those of a constraint are in its place. -/
  valueRows : ∀ (x : Point α) (parts : List (Point α)) (s' : Session α σ),
    Eval.Answered (fun p ↦ p.values x) (m.placed b.arities) s parts s' →
      parts.flatten.length = b.arities.sum ∧
      ∀ (i : ℕ) (part : Point α), parts[i]? = some part →
        Stack.part b.arities i parts.flatten = part
  /-- Derivatives are the blocks of the constraints in order, or the first fault among them. -/
  blocks : ∀ x, x.length = m.n → Stacks (m.stackedBlocks x) (fun p ↦ p.block m.step m.n x)
    (Matrix.stack m.n) (m.placed b.arities) s
  /-- There is a row of the derivative for each row, and those of a constraint are in its place. -/
  blockRows : ∀ (x : Point α) (parts : List (Matrix α)) (s' : Session α σ), x.length = m.n →
    Eval.Answered (fun p ↦ p.block m.step m.n x) (m.placed b.arities) s parts s' →
      (Matrix.stack m.n parts).shape = (b.arities.sum, m.n) ∧
      ∀ (i : ℕ) (part : Matrix α), parts[i]? = some part →
        part.width = m.n ∧ Stack.part b.arities i (Matrix.stack m.n parts).rows = part.rows

/-- A successful probe of a model, and what the session knows after it. -/
theorem probe_eq_ok {x : Point α} {s s' : Session α σ} {b : RowBounds α}
    (h : m.probe x s = (.ok b, s')) :
    b = .ofArities (m.constraints.map Constraint.kind) b.arities ∧
      b.arities.length = m.constraints.length ∧
      s'.arities = (s.arities <|> some b.arities) := by
  obtain ⟨b', s₁, hprobe, hrest⟩ := Eval.bind_eq_ok.mp h
  rw [Session.callUser_apply] at hprobe
  obtain ⟨hanswer, rfl⟩ := Prod.mk.inj hprobe
  obtain ⟨hbounds, hlength⟩ := Constraint.probe_eq_ok (Prod.ext hanswer rfl)
  cases hrest
  exact ⟨hbounds, hlength, rfl⟩

theorem coherent_of_arities {b : RowBounds α} {s : Session α σ}
    (hbounds : b = .ofArities (m.constraints.map Constraint.kind) b.arities)
    (harities : b.arities.length = m.constraints.length) (hs : s.arities = some b.arities) :
    m.Coherent b s where
  arities := ⟨harities, by rw [Session.rowCount?, hs]; rfl⟩
  bounds := by
    have hkinds : (m.constraints.map Constraint.kind).length = b.arities.length := by
      rw [List.length_map, harities]
    have hlower : b.lower
        = ((m.constraints.map Constraint.kind).zip b.arities).flatMap
            fun p ↦ List.replicate p.2 0.0 := by
      conv_lhs => rw [hbounds]
      exact RowBounds.lower_ofArities hkinds
    have hupper : b.upper
        = ((m.constraints.map Constraint.kind).zip b.arities).flatMap
            fun p ↦ List.replicate p.2 p.1.upper := by
      conv_lhs => rw [hbounds]
      rfl
    obtain ⟨hlengthLower, hlengthUpper⟩ := RowBounds.length_ofArities (α := α) hkinds
    rw [← hbounds] at hlengthLower hlengthUpper
    refine ⟨hlengthLower, hlengthUpper, fun i c k hc hk ↦ ?_⟩
    · have hkind : (m.constraints.map Constraint.kind)[i]? = some c.kind := by
        rw [List.getElem?_map, hc]
        rfl
      constructor
      · rw [hlower]
        exact RowBounds.part_ofArities hkinds (fun _ ↦ (0.0 : α)) hkind hk
      · rw [hupper]
        exact RowBounds.part_ofArities hkinds ConstraintKind.upper hkind hk
  values x := stacks_values harities hs x
  -- what each constraint keeps to is an arity, which is all that the numbering of rows goes by
  valueRows x parts s' h := by
    have hlengths := (h.forall₂
      (fun p ↦ Placed.keeps_values (Session.stable_arities m.n b.arities) p x) hs).2
    have hmap : parts.map List.length = b.arities := map_length_eq harities hlengths
    exact ⟨Stack.length_flatten hmap, fun i part hi ↦ Stack.part_flatten hmap hi⟩
  blocks x hx := stacks_blocks harities hs hx
  blockRows x parts s' hx h := by
    have hshapes := (h.forall₂
      (fun p ↦ Placed.keeps_block (Session.stable_arities m.n b.arities) p m.step hx) hs).2
    have hmap : (parts.map Matrix.rows).map List.length = b.arities := by
      rw [List.map_map]
      exact map_length_eq harities (hshapes.imp fun _ _ hshape ↦ (Prod.mk.inj hshape).1)
    refine ⟨?_, fun i part hi ↦ ⟨?_, ?_⟩⟩
    · exact Prod.ext (Stack.length_flatten hmap) rfl
    · obtain ⟨hlt, rfl⟩ := List.getElem?_eq_some_iff.mp hi
      exact (Prod.mk.inj (hshapes.get (hshapes.length_eq ▸ hlt) hlt)).2
    · have hrows : (parts.map Matrix.rows)[i]? = some part.rows := by
        rw [List.getElem?_map, hi]
        rfl
      exact Stack.part_flatten hmap hrows

/-- **Rows are numbered in one way from the first successful probe on**, whatever is asked of the
model after it and whatever comes of that. -/
theorem coherent_serve {x₀ : Point α} {s₀ s₁ : Session α σ} {b : RowBounds α}
    (hfresh : s₀.arities = none) (hprobe : m.probe x₀ s₀ = (.ok b, s₁)) (asks : List (Ask α)) :
    m.Coherent b (m.serve asks s₁) := by
  obtain ⟨hbounds, harities, hs₁⟩ := probe_eq_ok hprobe
  rw [hfresh] at hs₁
  exact coherent_of_arities hbounds harities
    (stable_serve (Session.stable_arities m.n b.arities) asks hs₁)

/-- Two equality rows, of which only one is left from the fourth call on, above an inequality. -/
def fickle : Model Float ℕ where
  evaluator := .differences fun x _ ↦ pure (x.coord 0)
  parameters := ∅
  constraints :=
    [{ kind := .equality
       value := fun x _ ↦ do
        let calls ← getModify (· + 1)
        pure (if calls < 3 then [x.coord 0, 1.0] else [x.coord 0]) },
     { kind := .inequality
       value := fun x _ ↦ pure [x.coord 0] }]
  step := .auto
  n := 1

theorem coherent_serve_fickle : ∃ b s₁,
    fickle.probe [0.0] { user := 0 } = (.ok b, s₁) ∧ b.arities = [2, 1] ∧
      fickle.Coherent b (fickle.serve [.constraints [1.0]] s₁) ∧
      (fickle.stackedBlocks [1.0] (fickle.serve [.constraints [1.0]] s₁)).1
        = .error (.arityChanged 0 2 1) :=
  ⟨_, _, rfl, rfl, coherent_serve rfl rfl [.constraints [1.0]], rfl⟩

end Model

end NonlinearProgram
