import NonlinearProgram.Proofs.Differences
import NonlinearProgram.Proofs.Sequence
import NonlinearProgram.Proofs.Stationarity

/-!
# Computations that can get stuck

An index beyond the last entry of an array, or an operation on arrays whose shapes do not fit, ends
a program without any outcome. `Strict` computations can end in that way: besides an answer and a
fault they have the result `none`, and what they guard is put in by `Strict.access`.

A strict computation is safe (`Strict.Safe`) if under a property of the state it never gets stuck
and does what the computation without guards does, which keeps the property. Safety is closed under
sequences, so that a program is safe where each of its accesses is.

## Guarded access

The operations of the method that index into arrays, or combine arrays of one shape, follow with
each access guarded. Where lists of coordinates stop at the shorter one and read zeros beyond the
last entry, these have no result. A name ends in `?` where the operation is guarded.

Beside each operation stands what it needs: in range, it is the operation without guards.
-/

namespace NonlinearProgram

/-- Computations on a state `σ` that may end in a fault, or get stuck. -/
abbrev Strict (α σ : Type) : Type → Type := ExceptT (Fault α) (StateT σ Option)

namespace Strict

variable {α σ β γ ι : Type}

/-- A computation that cannot get stuck. -/
def ofEval (act : Eval α σ β) : Strict α σ β := fun s ↦ some (act s)

/-- An access, stuck where it has no result. -/
def access (result : Option β) : Strict α σ β := fun s ↦ result.map fun b ↦ (.ok b, s)

theorem bind_of_ok {act : Strict α σ β} {s s₁ : σ} {b : β} (h : act s = some (.ok b, s₁))
    (f : β → Strict α σ γ) : (act >>= f) s = f b s₁ := by
  show (act s).bind (fun r ↦ ExceptT.bindCont f r.1 r.2) = _
  rw [h]
  rfl

theorem bind_of_error {act : Strict α σ β} {s s₁ : σ} {fault : Fault α}
    (h : act s = some (.error fault, s₁)) (f : β → Strict α σ γ) :
    (act >>= f) s = some (.error fault, s₁) := by
  show (act s).bind (fun r ↦ ExceptT.bindCont f r.1 r.2) = _
  rw [h]
  rfl

/-- Where the property of the state holds, the strict computation does what the other one does. That
one keeps the property, and its answers have a property of their own. -/
structure Safe (I : σ → Prop) (act? : Strict α σ β) (act : Eval α σ β) (P : β → Prop) : Prop where
  agrees : ∀ s, I s → act? s = some (act s)
  keeps : Eval.Keeps I act P

variable {I : σ → Prop} {P : β → Prop} {Q : γ → Prop} {act? : Strict α σ β} {act : Eval α σ β}

theorem safe_ofEval (h : Eval.Keeps I act P) : Safe I (ofEval act) act P := ⟨fun _ _ ↦ rfl, h⟩

theorem safe_pure {b : β} (h : P b) : Safe I (pure b : Strict α σ β) (pure b) P :=
  ⟨fun _ _ ↦ rfl, Eval.keeps_pure h⟩

theorem safe_access {result : Option β} {b : β} (hresult : result = some b) (h : P b) :
    Safe I (access result : Strict α σ β) (pure b) P := by
  subst hresult
  exact ⟨fun _ _ ↦ rfl, Eval.keeps_pure h⟩

theorem safe_lift {act? : StateT σ Option β} {act : StateM σ β}
    (h : ∀ s, I s → act? s = some (act s) ∧ I (act s).2 ∧ P (act s).1) :
    Safe I (ExceptT.lift act? : Strict α σ β) (ExceptT.lift act) P := by
  refine ⟨fun s hs ↦ ?_, fun s hs ↦ ⟨(h s hs).2.1, fun b hb ↦ ?_⟩⟩
  · show (act? s).bind _ = _
    rw [(h s hs).1]
    rfl
  · cases hb
    exact (h s hs).2.2

theorem Safe.bind {f? : β → Strict α σ γ} {f : β → Eval α σ γ} (h : Safe I act? act P)
    (hf : ∀ b, P b → Safe I (f? b) (f b) Q) : Safe I (act? >>= f?) (act >>= f) Q := by
  refine ⟨fun s hs ↦ ?_, h.keeps.bind fun b hb ↦ (hf b hb).keeps⟩
  have hact? := h.agrees s hs
  obtain ⟨hkept, hanswer⟩ := h.keeps s hs
  rcases hact : act s with ⟨fault | b, s₁⟩
  · rw [hact] at hact?
    rw [bind_of_error hact?, Eval.bind_of_error hact]
  · rw [hact] at hact? hkept hanswer
    rw [bind_of_ok hact?, Eval.bind_of_ok hact]
    exact (hf b (hanswer b rfl)).agrees s₁ hkept

/-- An access in range, in front of others. -/
theorem Safe.access_bind {result : Option β} {b : β} {f? : β → Strict α σ γ} {act : Eval α σ γ}
    (hresult : result = some b) (h : Safe I (f? b) act Q) :
    Safe I (access result >>= f?) act Q := by
  subst hresult
  exact ⟨h.agrees, h.keeps⟩

/-- Rows of safe computations; each answer has the property of its own computation. -/
theorem safe_mapM {f? : ι → Strict α σ β} {f : ι → Eval α σ β} {R : ι → β → Prop} {xs : List ι}
    (h : ∀ x ∈ xs, Safe I (f? x) (f x) (R x)) :
    Safe I (xs.mapM f?) (xs.mapM f) (List.Forall₂ R xs) := by
  induction xs with
  | nil => exact safe_pure .nil
  | cons x xs ih =>
    rw [List.forall_mem_cons] at h
    rw [List.mapM_cons, List.mapM_cons]
    exact h.1.bind fun b hb ↦ (ih h.2).bind fun bs hbs ↦ safe_pure (.cons hb hbs)

end Strict

/-! ## Rows of accesses

A row of accesses has a result if each of them has. A fold needs more, since what is accessed in one
step was written by the steps before: a property that each step keeps. -/

theorem Option.mapM_eq_some {ι β : Type} {f : ι → Option β} {g : ι → β} {xs : List ι}
    (h : ∀ x ∈ xs, f x = some (g x)) : xs.mapM f = some (xs.map g) := by
  induction xs with
  | nil => rfl
  | cons x xs ih =>
    rw [List.forall_mem_cons] at h
    rw [List.mapM_cons, h.1, ih h.2]
    rfl

/-- A fold of accesses that are in range as long as a property lasts, which they keep. -/
theorem Option.foldlM_eq_some {ι β : Type} {I : β → Prop} {f : β → ι → Option β} {g : β → ι → β}
    {xs : List ι} {b : β} (hb : I b)
    (h : ∀ x ∈ xs, ∀ b, I b → f b x = some (g b x) ∧ I (g b x)) :
    xs.foldlM f b = some (xs.foldl g b) ∧ I (xs.foldl g b) := by
  induction xs generalizing b with
  | nil => exact ⟨rfl, hb⟩
  | cons x xs ih =>
    rw [List.forall_mem_cons] at h
    obtain ⟨hx, hkept⟩ := h.1 b hb
    rw [List.foldlM_cons, hx]
    exact ih hkept h.2

variable {α : Type} [Scalar α]

/-! ## Points -/

/-- The difference of two points of one length. -/
def Point.sub? (x y : Point α) : Option (Point α) :=
  if x.length = y.length then some (x.sub y) else none

theorem Point.sub?_eq_some {x y : Point α} (h : x.length = y.length) :
    x.sub? y = some (x.sub y) := if_pos h

/-! ## Terms -/

namespace Source

/-- What a source is at a point with given row values. -/
def read? (x rows : Point α) : Source → Option α
  | row j => rows[j]?
  | coordinate i => x[i]?

/-- A source among `n` variables and `m` rows. -/
def InRange (n m : ℕ) : Source → Prop
  | row j => j < m
  | coordinate i => i < n

theorem read?_eq_some {source : Source} {x rows : Point α}
    (h : source.InRange x.length rows.length) :
    source.read? x rows = some (source.read x rows) := by
  cases source with
  | row j => exact Point.getElem?_eq_coord h
  | coordinate i => exact Point.getElem?_eq_coord h

end Source

/-- The multiplier of a term, added to those of its source. -/
def Multipliers.deposit? (ms : Multipliers α) (t : Term α) (l : α) : Option (Multipliers α) :=
  match t.source with
  | .row j => if j < ms.rows.length then some (ms.deposit t l) else none
  | .coordinate i =>
    if 0.0 < t.sign then if i < ms.lower.length then some (ms.deposit t l) else none
    else if i < ms.upper.length then some (ms.deposit t l) else none

/-- Adds the gradient of a term with a weight. -/
def Term.addSlope? (t : Term α) (jacobian : Matrix α) (weight : α) (g : Point α) :
    Option (Point α) :=
  if weight == 0.0 then some g
  else
    match t.source with
    | .row j => do
      let row ← jacobian.rows[j]?
      if row.length = g.length then some (g.addScaled (weight * t.sign) row) else none
    | .coordinate i => if i < g.length then some (g.modify i (· + weight * t.sign)) else none

/-! ## Layouts

A layout that fits refers to variables and rows that are there, and this is all that its guarded
operations need, together with a point and rows of the right lengths. -/

namespace Layout

/-- The distances of all terms. -/
def values? (l : Layout α) (x rows : Point α) : Option (List α) :=
  l.terms.mapM fun t ↦ (t.source.read? x rows).map t.distance

/-- Moves the variable of a term onto its bound, if it lies beyond. -/
def enforce? (x : Point α) (t : Term α) : Option (Point α) :=
  match t.source with
  | .row _ => some x
  | .coordinate i => do
    let v ← x[i]?
    some (if !t.equality && t.distance v < 0.0 then x.set i t.offset else x)

/-- The point moved onto the variable bounds. -/
def project? (l : Layout α) (x : Point α) : Option (Point α) := l.terms.foldlM enforce? x

/-- The multipliers sorted by what they belong to. -/
def splitMultipliers? (l : Layout α) (lambda : List α) : Option (Multipliers α) :=
  (l.terms.zip lambda).foldlM (fun ms p ↦ Multipliers.deposit? ms p.1 p.2)
    ⟨.zeros l.m, .zeros l.n, .zeros l.n⟩

/-- A layout for `n` variables and `m` rows whose terms belong to some of these. -/
structure Fits (l : Layout α) (n m : ℕ) : Prop where
  n_eq : l.n = n
  m_eq : l.m = m
  inRange : ∀ t ∈ l.terms, t.source.InRange n m

variable {l : Layout α} {n m : ℕ}

theorem fits_ofBounds {b : Bounds α} (hlower : ∀ lower, b.lower = some lower → lower.length = n)
    (hrows : b.rowLower.length = m) : (ofBounds n b).Fits n m where
  n_eq := rfl
  m_eq := hrows
  inRange t ht := by
    rcases mem_terms_ofBounds ht with
      ⟨j, _, _, hlo, -, hmem⟩ | ⟨i, lower, _, _, _, hl, -, hlo, -, hmem⟩
    · rw [Term.source_of_mem_sides hmem]
      exact hrows ▸ (List.getElem?_eq_some_iff.mp hlo).1
    · rw [Term.source_of_mem_sides hmem]
      exact hlower lower hl ▸ (List.getElem?_eq_some_iff.mp hlo).1

section InRange

variable (h : l.Fits n m)

include h

theorem values?_eq_some {x rows : Point α} (hx : x.length = n) (hrows : rows.length = m) :
    l.values? x rows = some (l.values x rows) := by
  refine Option.mapM_eq_some fun t ht ↦ ?_
  have hrange : t.source.InRange x.length rows.length := by
    rw [hx, hrows]
    exact h.inRange t ht
  rw [Source.read?_eq_some hrange]
  rfl

theorem project?_eq_some {x : Point α} (hx : x.length = n) :
    l.project? x = some (l.project x) ∧ (l.project x).length = n := by
  refine Option.foldlM_eq_some (I := fun y : Point α ↦ y.length = n) hx fun t ht y hy ↦ ?_
  have hrange := h.inRange t ht
  rw [enforce?, enforce]
  rcases hsource : t.source with j | i
  · exact ⟨rfl, hy⟩
  · rw [hsource] at hrange
    have hi : i < y.length := hy.symm ▸ hrange
    simp only [Point.getElem?_eq_coord hi]
    refine ⟨rfl, ?_⟩
    split
    · rw [List.length_set, hy]
    · exact hy

theorem splitMultipliers?_eq_some (lambda : List α) :
    l.splitMultipliers? lambda = some (l.splitMultipliers lambda) := by
  let shaped : Multipliers α → Prop := fun ms ↦
    ms.rows.length = m ∧ ms.lower.length = n ∧ ms.upper.length = n
  have hzeros : shaped ⟨.zeros l.m, .zeros l.n, .zeros l.n⟩ := by
    rw [h.m_eq, h.n_eq]
    exact ⟨Point.length_zeros m, Point.length_zeros n, Point.length_zeros n⟩
  refine (Option.foldlM_eq_some hzeros fun p hp ms hms ↦ ?_).1
  obtain ⟨hrows, hlower, hupper⟩ := hms
  obtain ⟨hrows', hlower', hupper'⟩ := ms.length_deposit p.1 p.2
  have hrange := h.inRange p.1 (List.of_mem_zip hp).1
  refine ⟨?_, hrows'.trans hrows, hlower'.trans hlower, hupper'.trans hupper⟩
  rw [Multipliers.deposit?]
  rcases hsource : p.1.source with j | i
  · rw [hsource] at hrange
    exact if_pos (hrows.symm ▸ hrange)
  · rw [hsource] at hrange
    simp only [hlower, hupper]
    split <;> exact if_pos hrange

end InRange

end Layout

/-! ## The gradient of the merit -/

/-- The gradient of the merit at a point. -/
def Merit.gradientAt? (m : Merit α) (x g rows : Point α) (jacobian : Matrix α) :
    Option (Point α) := do
  let values ← m.layout.values? x rows
  ((m.layout.terms.zip m.lambda).zip values).foldlM
    (fun g p ↦ p.1.1.addSlope? jacobian (p.1.1.weight m.rho p.1.2 p.2) g) g

theorem Term.addSlope?_eq_some {t : Term α} {J : Matrix α} {n m : ℕ}
    (ht : t.source.InRange n m) (hJ : J.HasShape m n) (w : α) {g : Point α} (hg : g.length = n) :
    t.addSlope? J w g = some (t.addSlope J w g) ∧ (t.addSlope J w g).length = n := by
  rw [addSlope?, addSlope]
  split
  · exact ⟨rfl, hg⟩
  rcases hsource : t.source with j | i
  · rw [hsource] at ht
    have hj : j < J.rows.length := lt_of_lt_of_eq ht hJ.height.symm
    have hrow : J.rows[j]? = some (J.row j) := by
      rw [Matrix.row, List.getElem?_eq_getElem hj, List.getD_eq_getElem _ _ hj]
    have hlength : (J.row j).length = g.length := (hJ.length_row ht).trans hg.symm
    have hspread : Point.spread (J.row j) g.length = J.row j := by
      rw [← hlength, Point.spread_length]
    simp only [hrow, hspread]
    refine ⟨if_pos hlength, ?_⟩
    rw [Point.addScaled, List.length_zipWith, hlength, Nat.min_self, hg]
  · rw [hsource] at ht
    exact ⟨if_pos (hg.symm ▸ ht), (List.length_modify _ _ _).trans hg⟩

theorem Merit.gradientAt?_eq_some {m : Merit α} {n k : ℕ} (h : m.layout.Fits n k)
    {x g rows : Point α} {J : Matrix α} (hx : x.length = n) (hg : g.length = n)
    (hrows : rows.length = k) (hJ : J.HasShape k n) :
    m.gradientAt? x g rows J = some (m.gradientAt x g rows J) ∧
      (m.gradientAt x g rows J).length = n := by
  have hvalues := Layout.values?_eq_some h hx hrows
  rw [gradientAt?, hvalues]
  refine Option.foldlM_eq_some (I := fun g : Point α ↦ g.length = n) hg fun p hp g hg ↦ ?_
  exact Term.addSlope?_eq_some
    (h.inRange p.1.1 (List.of_mem_zip (List.of_mem_zip hp).1).1) hJ _ hg

/-! ## Stacked blocks

Blocks are written one below another into a matrix of zeros, each at the row behind the one before.
The invariant is that the rows in front are in place and those behind are still zeros. -/

namespace Matrix

/-- Puts a block in place of as many rows from `row` on. -/
def assign? (a : Matrix α) (row : ℕ) (block : Matrix α) : Option (Matrix α) :=
  if row + block.height ≤ a.height ∧ block.width = a.width then
    some ⟨a.width, a.rows.take row ++ block.rows ++ a.rows.drop (row + block.height)⟩
  else none

/-- Puts a block behind those before it. -/
def assignNext? (a : Matrix α × ℕ) (block : Matrix α) : Option (Matrix α × ℕ) :=
  (a.1.assign? a.2 block).map fun next ↦ (next, a.2 + block.height)

/-- The blocks, put one after the other into a matrix of zeros with as many rows as they have
together. -/
def stack? (width : ℕ) (blocks : List (Matrix α)) : Option (Matrix α) :=
  (blocks.foldlM assignNext? (.zeros (blocks.map height).sum width, 0)).map Prod.fst

theorem foldlM_assignNext? {width : ℕ} {blocks : List (Matrix α)}
    (hwidth : ∀ b ∈ blocks, b.width = width) (done : List (List α)) :
    blocks.foldlM assignNext?
        (⟨width, done ++ List.replicate (blocks.map height).sum (Point.zeros width)⟩, done.length)
      = some (⟨width, done ++ blocks.flatMap rows⟩, done.length + (blocks.map height).sum) := by
  induction blocks generalizing done with
  | nil => simp
  | cons block blocks ih =>
    rw [List.forall_mem_cons] at hwidth
    have hassign : assignNext?
        (⟨width, done ++ List.replicate ((block :: blocks).map height).sum (Point.zeros width)⟩,
          done.length) block
        = some (⟨width, done ++ block.rows ++
            List.replicate (blocks.map height).sum (Point.zeros width)⟩,
          (done ++ block.rows).length) := by
      have hrows : ((block :: blocks).map height).sum
          = block.height + (blocks.map height).sum := by rw [List.map_cons, List.sum_cons]
      have hback : (done ++ List.replicate (block.height + (blocks.map height).sum)
            (Point.zeros width : Point α)).drop (done.length + block.height)
          = List.replicate (blocks.map height).sum (Point.zeros width) := by
        rw [← List.drop_drop, List.drop_left, List.drop_replicate, Nat.add_sub_cancel_left]
      have hfits : done.length + block.height ≤ (⟨width, done ++
          List.replicate (block.height + (blocks.map height).sum) (Point.zeros width)⟩ :
          Matrix α).height := by
        show _ ≤ (done ++ List.replicate _ _).length
        rw [List.length_append, List.length_replicate]
        omega
      rw [assignNext?, hrows, assign?, if_pos ⟨hfits, hwidth.1⟩, hback, List.take_left,
        List.length_append]
      rfl
    rw [List.foldlM_cons, hassign, Option.bind_eq_bind, Option.bind_some, ih hwidth.2]
    simp [height, Nat.add_assoc]

theorem stack?_eq_some {width : ℕ} {blocks : List (Matrix α)}
    (hwidth : ∀ b ∈ blocks, b.width = width) : stack? width blocks = some (stack width blocks) := by
  have hfold := foldlM_assignNext? hwidth []
  rw [List.nil_append, List.length_nil] at hfold
  rw [stack?, zeros, hfold]
  rfl

end Matrix

/-! ## Difference quotients

With the fixed step a probe is checked for its number of values before it is read. With the
automatic step the sweep reads what it was told, and that is in range because what is answered in
the place of a fault has the length of the first answer (`Settled`). -/

/-- Every row has an entry for each column, as in an array. -/
def Matrix.Whole {α : Type} (a : Matrix α) : Prop := ∀ r ∈ a.rows, r.length = a.width

theorem Matrix.whole_ofColumns (height : ℕ) (columns : List (Point α)) :
    (ofColumns height columns).Whole := by
  intro r hr
  obtain ⟨i, -, rfl⟩ := List.mem_map.mp hr
  exact List.length_map _

namespace Forward

variable {σ : Type}

/-- The difference quotients of two vectors of one length. -/
def quotients? (h : α) (moved start : Point α) : Option (Point α) :=
  if moved.length = start.length then some (quotients h moved start) else none

/-- Evaluates with one variable of the probe after the other moved by the step. -/
def inPlace? {β : Type} (act? : Point α → Strict α σ β) (h : α) (probe : Point α) :
    List ℕ → Strict α σ (List β)
  | [] => pure []
  | j :: js => do
    let kept ← Strict.access probe[j]?
    let moved := probe.set j (kept + h)
    let answer ← act? moved
    let answers ← inPlace? act? h (moved.set j kept) js
    pure (answer :: answers)

/-- The derivative with a fixed step. -/
def fixedJacobian? (c : Point α → Eval α σ (Point α)) (x : Point α) (h : α) :
    Strict α σ (Matrix α) := do
  let start ← Strict.ofEval (c x)
  let columns ← inPlace? (fun probe ↦ do
    let moved ← Strict.ofEval (c probe)
    Strict.ofEval (Eval.ofExcept (Check.arity moved.length 0 start.length))
    Strict.access (quotients? h moved start)) h x (List.range x.length)
  pure (.ofColumns start.length columns)

/-- The difference quotients of vectors that are read at the places of the second one. -/
def readQuotients? (h : α) (values start : Point α) : Option (Point α) :=
  (List.range start.length).mapM fun i ↦ do
    let a ← values[i]?
    let b ← start[i]?
    some ((a - b) / h)

/-- The derivative with the automatic step. -/
def autoJacobian? (c : Point α → Eval α σ (Point α)) (x : Point α) : Strict α σ (Matrix α) :=
  fun s ↦
    let ((start, moved), p) := sweep (parkVector c) x Step.automatic (Parked.start s)
    (moved.mapM fun values ↦ readQuotients? Step.automatic values start).map fun columns ↦
      p.outcome (.ofColumns start.length columns)

/-- The derivative of a vector-valued function. -/
def jacobian? (c : Point α → Eval α σ (Point α)) (x : Point α) : Step α → Strict α σ (Matrix α)
  | .fixed h => fixedJacobian? c x h
  | .auto => autoJacobian? c x

theorem readQuotients?_eq_some (h : α) {values start : Point α}
    (hlength : values.length = start.length) :
    readQuotients? h values start
      = some ((List.range start.length).map fun i ↦ (values.coord i - start.coord i) / h) := by
  refine Option.mapM_eq_some fun i hi ↦ ?_
  rw [List.mem_range] at hi
  have hi' : i < values.length := hlength.symm ▸ hi
  rw [List.getElem?_eq_getElem hi, List.getElem?_eq_getElem hi', Point.coord, Point.coord,
    List.getD_eq_getElem _ _ hi, List.getD_eq_getElem _ _ hi']
  rfl

variable {I : σ → Prop} {c : Point α → Eval α σ (Point α)}

/-- Induction on the variables; the probe keeps its length, so that those that are left are in range
too. -/
theorem safe_inPlace {β : Type} {act? : Point α → Strict α σ β} {act : Point α → Eval α σ β}
    (hact : ∀ probe, Strict.Safe I (act? probe) (act probe) fun _ ↦ True) (h : α) {js : List ℕ}
    {probe : Point α} (hjs : ∀ j ∈ js, j < probe.length) :
    Strict.Safe I (inPlace? act? h probe js) (inPlace act h probe js) fun _ ↦ True := by
  induction js generalizing probe with
  | nil => exact Strict.safe_pure trivial
  | cons j js ih =>
    rw [List.forall_mem_cons] at hjs
    have hrest : ∀ k ∈ js,
        k < ((probe.set j (probe.coord j + h)).set j (probe.coord j)).length := by
      rw [Point.set_set_coord]
      exact hjs.2
    exact Strict.Safe.access_bind (Point.getElem?_eq_coord hjs.1)
      ((hact _).bind fun _ _ ↦ (ih hrest).bind fun _ _ ↦ Strict.safe_pure trivial)

theorem safe_fixedJacobian (hc : ∀ x, Eval.Keeps I (c x) fun _ ↦ True) (x : Point α) (h : α) :
    Strict.Safe I (fixedJacobian? c x h) (fixedJacobian c x h) Matrix.Whole := by
  have hprobe : ∀ (start probe : Point α), Strict.Safe I
      (do
        let moved ← Strict.ofEval (c probe)
        Strict.ofEval (Eval.ofExcept (Check.arity moved.length 0 start.length))
        Strict.access (quotients? h moved start))
      (do
        let moved ← c probe
        Eval.ofExcept (Check.arity moved.length 0 start.length)
        pure (quotients h moved start)) fun _ ↦ True := by
    intro start probe
    exact (Strict.safe_ofEval (hc probe)).bind fun moved _ ↦
      (Strict.safe_ofEval (Eval.keeps_check_arity moved.length 0 start.length)).bind
        fun _ hlength ↦ Strict.safe_access (if_pos hlength) trivial
  exact (Strict.safe_ofEval (hc x)).bind fun start _ ↦
    (safe_inPlace (hprobe start) h fun _ ↦ List.mem_range.mp).bind fun columns _ ↦
      Strict.safe_pure (Matrix.whole_ofColumns _ _)

/-- Once a function was called, all that stands for its answers has one length: what is in place of
them after a fault, and they themselves before it. -/
structure Settled (k : ℕ) (p : Parked α σ) : Prop where
  blank : p.arity.getD 0 = k
  arity : p.fault = none → p.arity = some k

theorem parkVector_settled (c : Point α → Eval α σ (Point α)) (x : Point α) {k : ℕ}
    {p : Parked α σ} (hp : Settled k p) :
    (parkVector c x p).1.length = k ∧ Settled k (parkVector c x p).2 := by
  have hblank : p.blank.length = k := List.length_replicate.trans hp.blank
  rcases hfault : p.fault with _ | fault
  · have harity := hp.arity hfault
    rcases hc : c x p.state with ⟨fault | values, s⟩
    · simp only [parkVector, hfault, hc]
      exact ⟨hblank, hp.blank, fun h ↦ absurd h (Option.some_ne_none _)⟩
    · by_cases hlength : k = values.length
      · simp only [parkVector, hfault, hc, harity, if_pos hlength]
        exact ⟨hlength.symm, rfl, fun _ ↦ rfl⟩
      · simp only [parkVector, hfault, hc, harity, if_neg hlength]
        exact ⟨hblank, rfl, fun h ↦ absurd h (Option.some_ne_none _)⟩
  · simp only [parkVector, hfault]
    exact ⟨hblank, hp⟩

theorem mapM_parkVector_settled (c : Point α → Eval α σ (Point α)) (xs : List (Point α)) {k : ℕ}
    {p : Parked α σ} (hp : Settled k p) :
    ∀ values ∈ (xs.mapM (parkVector c) p).1, values.length = k := by
  induction xs generalizing p with
  | nil => exact fun _ h ↦ absurd h List.not_mem_nil
  | cons x xs ih =>
    obtain ⟨hlength, hsettled⟩ := parkVector_settled c x hp
    rw [List.mapM_cons]
    exact List.forall_mem_cons.mpr ⟨hlength, ih hsettled⟩

/-- Every probe of the sweep has as many values as the first one, also where one of them faulted or
was of another length. -/
theorem length_of_mem_sweep (c : Point α → Eval α σ (Point α)) (x : Point α) (h : α) (s : σ) :
    ∀ values ∈ (sweep (parkVector c) x h (Parked.start s)).1.2,
      values.length = (sweep (parkVector c) x h (Parked.start s)).1.1.length := by
  have hfirst : Settled (parkVector c x (Parked.start s)).1.length
      (parkVector c x (Parked.start s)).2 := by
    rcases hc : c x s with ⟨fault | values, s₁⟩
    · simp only [parkVector, Parked.start, hc]
      exact ⟨rfl, fun h ↦ absurd h (Option.some_ne_none _)⟩
    · simp only [parkVector, Parked.start, hc]
      exact ⟨rfl, fun _ ↦ rfl⟩
  have hrest := mapM_parkVector_settled c ((List.range x.length).map fun j ↦ x.shift j h) hfirst
  rw [List.mapM_map] at hrest
  exact hrest

theorem safe_jacobian (hc : ∀ x, Eval.Keeps I (c x) fun _ ↦ True) (x : Point α) (step : Step α) :
    Strict.Safe I (jacobian? c x step) (jacobian c x step) Matrix.Whole := by
  cases step with
  | fixed h => exact safe_fixedJacobian hc x h
  | auto =>
    refine ⟨fun s _ ↦ ?_, ?_⟩
    · have hlength := length_of_mem_sweep c x Step.automatic s
      rcases hsweep : sweep (parkVector c) x Step.automatic (Parked.start s)
        with ⟨⟨start, moved⟩, p⟩
      rw [hsweep] at hlength
      have hcolumns := Option.mapM_eq_some fun values hvalues ↦
        readQuotients?_eq_some Step.automatic (hlength values hvalues)
      rw [jacobian, autoJacobian_apply, hsweep]
      simp only [jacobian?, autoJacobian?, hsweep, hcolumns]
      rfl
    · show Eval.Keeps I (autoJacobian .standard c x) _
      rw [autoJacobian_eq]
      exact (safe_fixedJacobian hc x Step.automatic).keeps

end Forward

end NonlinearProgram
