import NonlinearProgram.Proofs.Guarded
import NonlinearProgram.Proofs.Stacking

/-!
# Pure constraints

A constraint is pure if its callbacks are functions, which answer at every point and leave the state
as it is, and if it has as many values everywhere. What a model with such constraints answers can be
written down: the values are those of the functions, one below the other, and the derivative is made
of the blocks of the constraints, each from its function or from difference quotients.

A pure constraint can be split into consecutive ones that have parts of its rows
(`PureConstraint.split`). Values and blocks of the parts, one below the other, are those of the
constraint; for a block of difference quotients this is because every row has quotients of its own.
-/

namespace NonlinearProgram

variable {α σ : Type}

/-! ## Functions as callbacks

Splitting takes the rows apart at given sizes. A part of size zero is allowed, and the parameters of
the constraint go to each of its parts. -/

/-- A constraint on `n` variables whose callbacks are functions, with a constant number of
values. -/
structure PureConstraint (α : Type) (n : ℕ) where
  kind : ConstraintKind
  values : Point α → Parameters α → Point α
  derivative : Option (Point α → Parameters α → Matrix α) := none
  parameters : Parameters α := ∅
  arity : ℕ
  length_values : ∀ x, (values x parameters).length = arity
  hasShape_derivative : ∀ d, derivative = some d → ∀ x, x.length = n →
    (d x parameters).HasShape arity n

/-- The part of the rows of a matrix. -/
def Matrix.part (arities : List ℕ) (i : ℕ) (a : Matrix α) : Matrix α :=
  ⟨a.width, Stack.part arities i a.rows⟩

theorem Matrix.HasShape.part {a : Matrix α} {arities : List ℕ} {n : ℕ}
    (h : a.HasShape arities.sum n) (i : ℕ) : (a.part arities i).HasShape (arities.getD i 0) n where
  height := Stack.length_part h.height.symm i
  width := h.width
  row r hr := h.row r (List.mem_of_mem_take (List.mem_of_mem_drop hr))

namespace PureConstraint

variable {n : ℕ}

/-- The constraint that calls the functions, over any state. -/
def toConstraint (f : PureConstraint α n) : Constraint α σ where
  kind := f.kind
  value := fun x p ↦ pure (f.values x p)
  derivative := f.derivative.map fun d x p ↦ pure (d x p)
  parameters := f.parameters

/-- The values at a point. -/
def rows (f : PureConstraint α n) (x : Point α) : Point α := f.values x f.parameters

theorem length_rows (f : PureConstraint α n) (x : Point α) : (f.rows x).length = f.arity :=
  f.length_values x

/-- The rows that constraints have at a point, each with its kind. -/
def stack (cs : List (PureConstraint α n)) (x : Point α) : List (ConstraintKind × α) :=
  cs.flatMap fun f ↦ (f.rows x).map fun v ↦ (f.kind, v)

theorem map_snd_stack (cs : List (PureConstraint α n)) (x : Point α) :
    (stack cs x).map Prod.snd = cs.flatMap fun f ↦ f.rows x := by
  rw [stack, List.map_flatMap]
  refine List.flatMap_congr fun f _ ↦ ?_
  rw [List.map_map]
  exact List.map_id _

theorem length_stack (cs : List (PureConstraint α n)) (x : Point α) :
    (stack cs x).length = (cs.map arity).sum := by
  rw [stack, List.length_flatMap]
  simp only [List.length_map, length_rows]

/-- The constraint `i` of those into which a constraint is split. -/
def piece (f : PureConstraint α n) {sizes : List ℕ} (h : sizes.sum = f.arity) (i : ℕ) :
    PureConstraint α n where
  kind := f.kind
  values := fun x p ↦ Stack.part sizes i (f.values x p)
  derivative := f.derivative.map fun d x p ↦ (d x p).part sizes i
  parameters := f.parameters
  arity := sizes.getD i 0
  length_values x := Stack.length_part (h.trans (f.length_values x).symm) i
  hasShape_derivative d hd x hx := by
    obtain ⟨whole, hwhole, rfl⟩ := Option.map_eq_some_iff.mp hd
    have hshape := f.hasShape_derivative whole hwhole x hx
    rw [← h] at hshape
    exact hshape.part i

/-- Constraints of the same kind and parameters, whose rows are consecutive parts of those of a
constraint, of the given sizes. -/
def split (f : PureConstraint α n) {sizes : List ℕ} (h : sizes.sum = f.arity) :
    List (PureConstraint α n) :=
  (List.range sizes.length).map (f.piece h)

theorem stack_split (f : PureConstraint α n) {sizes : List ℕ} (h : sizes.sum = f.arity)
    (x : Point α) : stack (f.split h) x = stack [f] x := by
  have hlength : sizes.sum = ((f.rows x).map fun v ↦ (f.kind, v)).length := by
    rw [List.length_map, f.length_rows, h]
  rw [stack, split, List.flatMap_map, stack, List.flatMap_singleton, ← Stack.flatMap_part hlength]
  exact List.flatMap_congr fun i _ ↦ (Stack.map_part _ sizes i (f.rows x)).symm

end PureConstraint

/-! ## Values

The session is left as it is, apart from what its arities are, since functions have no state. So the
constraints of a stack can be asked one at a time, each in the session that the first one found. -/

/-- No numbers of values are fixed yet, or those given. -/
def Session.Admits (arities : List ℕ) (s : Session α σ) : Prop :=
  s.arities = none ∨ s.arities = some arities

namespace Model

variable {n : ℕ} {m : Model α σ} {s : Session α σ} {cs : List (PureConstraint α n)}

theorem arity?_of_admits (hs : s.Admits (cs.map PureConstraint.arity)) {p : PureConstraint α n × ℕ}
    (hp : p ∈ cs.zipIdx) : ∀ k, s.arity? p.2 = some k → k = p.1.arity := by
  intro k hk
  rcases hs with hs | hs
  · rw [Session.arity?, hs] at hk
    cases hk
  · rw [Session.arity?, hs, Option.bind_some, List.getElem?_map,
      List.mem_zipIdx_iff_getElem?.mp hp] at hk
    exact (Option.some.inj hk).symm

/-- A pure constraint answers with its values, and leaves the session as it is. -/
theorem constraintValues_pure {i : ℕ} {f : PureConstraint α n}
    (h : ∀ k, s.arity? i = some k → k = f.arity) (x : Point α) :
    constraintValues i f.toConstraint x s = (.ok (f.rows x), s) := by
  have hcall : Session.callUser (f.toConstraint.eval x) s = (.ok (f.rows x), s) :=
    Session.callUser_of_eq rfl
  rw [constraintValues, Eval.bind_of_ok hcall, Eval.bind_of_ok (Eval.get_apply s)]
  rcases harity : s.arity? i with _ | k
  · rfl
  · have hcheck : (Check.arity (f.rows x).length i k : Except (Fault α) Unit) = .ok () :=
      if_pos ((f.length_rows x).trans (h k harity).symm)
    simp only [hcheck]
    rfl

theorem mapM_zipIdx_pure {β : Type} (request : ℕ → Constraint α σ → Eval α (Session α σ) β)
    (part : PureConstraint α n → β)
    (h : ∀ p ∈ cs.zipIdx, request p.2 p.1.toConstraint s = (.ok (part p.1), s)) :
    (cs.map PureConstraint.toConstraint).zipIdx.mapM (fun p ↦ request p.2 p.1) s
      = (.ok (cs.map part), s) := by
  have hfirst : cs.zipIdx.map (fun p ↦ part p.1) = cs.map part := by
    conv_rhs => rw [← List.zipIdx_map_fst 0 cs, List.map_map]
    rfl
  rw [List.zipIdx_map, List.mapM_map, ← hfirst]
  exact Eval.mapM_of_const h

theorem stackedValues_pure (hm : m.constraints = cs.map PureConstraint.toConstraint)
    (hs : s.Admits (cs.map PureConstraint.arity)) (x : Point α) :
    m.stackedValues x s = (.ok ((PureConstraint.stack cs x).map Prod.snd), s) := by
  have hparts := mapM_zipIdx_pure (fun i c ↦ constraintValues i c x) (fun f ↦ f.rows x)
    fun p hp ↦ constraintValues_pure (arity?_of_admits hs hp) x
  rw [stackedValues, hm, Eval.bind_of_ok hparts, PureConstraint.map_snd_stack]
  rfl

end Model

/-! ## Difference quotients of parts

The quotients of the values of a part are some of the quotients of all values, because the probes
are the same and a quotient is taken entry by entry. -/

variable [Scalar α]

namespace Forward

theorem columns_part {h : α} {sizes : List ℕ} {values : List (Point α)}
    (hlength : ∀ v ∈ values, v.length = sizes.sum) (i : ℕ) :
    columns h (values.map (Stack.part sizes i)) = (columns h values).part sizes i := by
  rcases values with _ | ⟨start, moved⟩
  · simp [columns, Matrix.part, Stack.part]
  rw [List.forall_mem_cons] at hlength
  obtain ⟨hstart, hmoved⟩ := hlength
  have hcount := Stack.length_part hstart.symm i
  have hparts : ∀ v ∈ moved.map (Stack.part sizes i),
      v.length = (Stack.part sizes i start).length := by
    intro v hv
    obtain ⟨w, hw, rfl⟩ := List.mem_map.mp hv
    rw [hcount, Stack.length_part (hmoved w hw).symm]
  have hcoord : ∀ j, j < sizes.getD i 0 → ∀ v : Point α,
      Point.coord (Stack.part sizes i v) j = v.coord ((sizes.take i).sum + j) := by
    intro j hj v
    rw [Point.coord, Point.coord, List.getD_eq_getElem?_getD, List.getD_eq_getElem?_getD,
      Stack.getElem?_part hj]
  have hrows : (columns h ((start :: moved).map (Stack.part sizes i))).rows
      = Stack.part sizes i (columns h (start :: moved)).rows := by
    rw [List.map_cons, rows_columns hparts, hcount,
      rows_columns fun v hv ↦ (hmoved v hv).trans hstart.symm, hstart, Stack.map_part,
      Stack.part_range, List.map_map]
    refine List.map_congr_left fun j hj ↦ ?_
    rw [List.mem_range] at hj
    simp only [List.map_map, Function.comp_def, hcoord j hj]
  have hwidth : (columns h ((start :: moved).map (Stack.part sizes i))).width
      = (columns h (start :: moved)).width := by
    show ((moved.map (Stack.part sizes i)).map _).length = (moved.map _).length
    rw [List.length_map, List.length_map, List.length_map]
  exact congrArg₂ Matrix.mk hwidth hrows

end Forward

namespace PureConstraint

variable {n : ℕ}

/-- The derivative at a point, from the function for it or from difference quotients. -/
def block (f : PureConstraint α n) (step : Step α) (x : Point α) : Matrix α :=
  match f.derivative with
  | some derivative => derivative x f.parameters
  | none => Forward.columns step.size ((Forward.probes x step.size).map f.rows)

theorem hasShape_block (f : PureConstraint α n) (step : Step α) {x : Point α} (hx : x.length = n) :
    (f.block step x).HasShape f.arity n := by
  rw [block]
  rcases hderivative : f.derivative with _ | derivative
  · have hlength : ∀ v ∈ (Forward.probes x step.size).map f.rows, v.length = f.arity := by
      intro v hv
      obtain ⟨p, -, rfl⟩ := List.mem_map.mp hv
      exact f.length_rows p
    have hne : (Forward.probes x step.size).map f.rows ≠ [] := List.cons_ne_nil _ _
    have hcount : ((Forward.probes x step.size).map f.rows).length - 1 = n := by
      rw [List.length_map, Forward.length_probes, hx, Nat.add_sub_cancel]
    obtain ⟨hheight, hwidth⟩ := Prod.mk.inj (Forward.shape_columns (h := step.size) hne hlength)
    rw [hcount] at hwidth
    refine ⟨hheight, hwidth, fun r hr ↦ ?_⟩
    exact (Matrix.whole_ofColumns _ _ r hr).trans hwidth
  · exact f.hasShape_derivative derivative hderivative x hx

/-- The rows of the derivatives of constraints, one below the other. -/
def stackBlocks (cs : List (PureConstraint α n)) (step : Step α) (x : Point α) : List (List α) :=
  cs.flatMap fun f ↦ (f.block step x).rows

theorem hasShape_stackBlocks (cs : List (PureConstraint α n)) (step : Step α) {x : Point α}
    (hx : x.length = n) :
    (⟨n, stackBlocks cs step x⟩ : Matrix α).HasShape (cs.map arity).sum n where
  height := by
    have hheights : cs.map (fun f ↦ (f.block step x).rows.length) = cs.map arity :=
      List.map_congr_left fun f _ ↦ (f.hasShape_block step hx).height
    show (stackBlocks cs step x).length = _
    rw [stackBlocks, List.length_flatMap, hheights]
  width := rfl
  row r hr := by
    obtain ⟨f, -, hf⟩ := List.mem_flatMap.mp hr
    exact (f.hasShape_block step hx).row r hf

theorem block_piece (f : PureConstraint α n) {sizes : List ℕ} (h : sizes.sum = f.arity) (i : ℕ)
    (step : Step α) (x : Point α) :
    (f.piece h i).block step x = (f.block step x).part sizes i := by
  rw [block, block]
  rcases hderivative : f.derivative with _ | derivative
  · have hpiece : (f.piece h i).derivative = none := Option.map_eq_none_iff.mpr hderivative
    have hlength : ∀ v ∈ (Forward.probes x step.size).map f.rows, v.length = sizes.sum := by
      intro v hv
      obtain ⟨p, -, rfl⟩ := List.mem_map.mp hv
      rw [f.length_rows, h]
    simp only [hpiece]
    rw [← Forward.columns_part hlength, List.map_map]
    rfl
  · have hpiece : (f.piece h i).derivative = some fun x p ↦ (derivative x p).part sizes i :=
      Option.map_eq_some_iff.mpr ⟨derivative, hderivative, rfl⟩
    simp only [hpiece]
    rfl

theorem stackBlocks_split (f : PureConstraint α n) {sizes : List ℕ} (h : sizes.sum = f.arity)
    (step : Step α) {x : Point α} (hx : x.length = n) :
    stackBlocks (f.split h) step x = stackBlocks [f] step x := by
  have hheight : sizes.sum = (f.block step x).rows.length :=
    h.trans (f.hasShape_block step hx).height.symm
  rw [stackBlocks, split, List.flatMap_map, stackBlocks, List.flatMap_singleton]
  simp only [block_piece]
  exact Stack.flatMap_part hheight

end PureConstraint

/-! ## Probes -/

/-- The bounds of the rows of constraints, each as its kind asks, and the numbers of values. -/
def PureConstraint.rowBounds {n : ℕ} (cs : List (PureConstraint α n)) (x : Point α) :
    RowBounds α where
  lower := (stack cs x).map fun _ ↦ 0.0
  upper := (stack cs x).map fun row ↦ row.1.upper
  arities := cs.map arity

theorem RowBounds.ofArities_pure {n : ℕ} (cs : List (PureConstraint α n)) (x : Point α) :
    ofArities (cs.map PureConstraint.kind) (cs.map PureConstraint.arity)
      = PureConstraint.rowBounds cs x := by
  have hbound : ∀ bound : ConstraintKind → α,
      cs.flatMap (fun f ↦ List.replicate f.arity (bound f.kind))
        = (PureConstraint.stack cs x).map fun row ↦ bound row.1 := by
    intro bound
    rw [PureConstraint.stack, List.map_flatMap]
    refine List.flatMap_congr fun f _ ↦ ?_
    rw [List.map_map, ← f.length_rows x]
    exact List.map_const'.symm
  have hzip : (cs.map PureConstraint.kind).zip (cs.map PureConstraint.arity)
      = cs.map fun f ↦ (f.kind, f.arity) := List.zip_map' ..
  rw [ofArities, hzip, List.flatMap_map, List.flatMap_map]
  exact congrArg₂ (fun lower upper ↦ RowBounds.mk lower upper _) (hbound fun _ ↦ 0.0)
    (hbound ConstraintKind.upper)

theorem Constraint.probe_pure {n : ℕ} (cs : List (PureConstraint α n)) (x : Point α) (u : σ) :
    Constraint.probe (cs.map PureConstraint.toConstraint) x u
      = (.ok (PureConstraint.rowBounds cs x), u) := by
  have hvalues : (cs.map PureConstraint.toConstraint).mapM (fun c ↦ c.eval x) u
      = (.ok (cs.map fun f ↦ f.rows x), u) := by
    rw [List.mapM_map]
    exact Eval.mapM_of_const fun f _ ↦ rfl
  rw [Constraint.probe_eq, Eval.bind_of_ok hvalues, List.map_map, List.map_map]
  simp only [Function.comp_def, PureConstraint.length_rows]
  rw [← RowBounds.ofArities_pure cs x]
  rfl

/-! ## Models

With the arities fixed, or none of them yet, values and blocks pass all checks, so the outcome is
never a fault. -/

namespace Model

variable {m : Model α σ} {s : Session α σ}

theorem jacobian_pure {n i : ℕ} {f : PureConstraint α n}
    (h : ∀ k, s.arity? i = some k → k = f.arity) (step : Step α) (x : Point α) :
    Forward.jacobian (constraintValues i f.toConstraint) x step s
      = (.ok (Forward.columns step.size ((Forward.probes x step.size).map f.rows)), s) := by
  have hkeeps : ∀ p, Eval.Keeps (fun t : Session α σ ↦ t = s) (constraintValues i f.toConstraint p)
      fun values ↦ values.length = f.arity := by
    rintro p t rfl
    rw [constraintValues_pure h p]
    refine ⟨rfl, fun values hvalues ↦ ?_⟩
    cases hvalues
    exact f.length_rows p
  rw [Forward.jacobian_eq hkeeps x step rfl]
  exact Eval.bind_of_ok (Eval.mapM_of_const fun p _ ↦ constraintValues_pure h p) _

theorem constraintBlock_pure {n i : ℕ} {f : PureConstraint α n} (hn : m.n = n)
    (h : ∀ k, s.arity? i = some k → k = f.arity) {x : Point α} (hx : x.length = n) :
    m.constraintBlock i f.toConstraint x s = (.ok (f.block m.step x), s) := by
  have hshape := f.hasShape_block m.step hx
  have hheight : (s.arity? i).getD (f.block m.step x).height = f.arity := by
    rcases harity : s.arity? i with _ | k
    · exact hshape.height
    · exact h k harity
  have hcheck : m.checkBlock i (f.block m.step x) s = (.ok (f.block m.step x), s) := by
    have hpassed : (Check.jacobian (f.block m.step x) i f.arity m.n : Except (Fault α) Unit)
        = .ok () := if_pos ⟨hshape.height, hshape.width.trans hn.symm⟩
    refine (Eval.bind_of_ok (Eval.get_apply _) _).trans ?_
    rw [hheight, hpassed]
    rfl
  rw [constraintBlock_eq_bind]
  refine (Eval.bind_of_ok (?_ : _ = (Except.ok (f.block m.step x), s)) _).trans hcheck
  rw [PureConstraint.block]
  rcases hderivative : f.derivative with _ | derivative
  · have hnone : (f.toConstraint : Constraint α σ).derivative = none :=
      Option.map_eq_none_iff.mpr hderivative
    simp only [hnone]
    exact jacobian_pure h m.step x
  · have hsome : (f.toConstraint : Constraint α σ).derivative
        = some fun x p ↦ pure (derivative x p) :=
      Option.map_eq_some_iff.mpr ⟨derivative, hderivative, rfl⟩
    simp only [hsome]
    exact Session.callUser_of_eq rfl

theorem stackedBlocks_pure {n : ℕ} {cs : List (PureConstraint α n)} (hn : m.n = n)
    (hm : m.constraints = cs.map PureConstraint.toConstraint)
    (hs : s.Admits (cs.map PureConstraint.arity)) {x : Point α} (hx : x.length = n) :
    m.stackedBlocks x s = (.ok ⟨n, PureConstraint.stackBlocks cs m.step x⟩, s) := by
  have hparts := mapM_zipIdx_pure (fun i c ↦ m.constraintBlock i c x) (fun f ↦ f.block m.step x)
    fun p hp ↦ constraintBlock_pure hn (arity?_of_admits hs hp) hx
  have hrows : (cs.map fun f ↦ f.block m.step x).flatMap Matrix.rows
      = PureConstraint.stackBlocks cs m.step x := List.flatMap_map ..
  rw [stackedBlocks, hm, Eval.bind_of_ok hparts, ← hrows, hn]
  rfl

/-- A probe answers with the bounds of the rows, and fixes the numbers of values if none are. -/
theorem probe_pure {n : ℕ} {cs : List (PureConstraint α n)}
    (hm : m.constraints = cs.map PureConstraint.toConstraint) (x : Point α) :
    m.probe x s = (.ok (PureConstraint.rowBounds cs x),
      { s with arities := s.arities <|> some (cs.map PureConstraint.arity) }) := by
  rw [probe, hm, Eval.bind_of_ok (Session.callUser_of_eq (Constraint.probe_pure cs x s.user))]
  rfl

end Model

end NonlinearProgram
