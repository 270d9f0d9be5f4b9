import NonlinearProgram.Proofs.Multipliers
import NonlinearProgram.Lagrangian.Merit

/-!
# The gradient of the merit and the reported multipliers

The gradient of the merit at a point is the gradient of the objective and one contribution a term,
weighted by the multiplier that the update gives the term at that point, for an inequality with a
minus sign. `Layout.splitMultipliers` reports the updated multipliers in the convention
`∇f - Jᵀ mult_g - mult_x_l + mult_x_u`, which has a minus sign for every row.

The two agree on inequalities and on variables. Equality rows keep the plus sign of their weight
through the split, and so the gradient of the merit is that of the Lagrangian plus twice the
equality rows' part of `Jᵀ mult_g`.
-/

namespace NonlinearProgram

/-! ## Weights -/

namespace Term

variable {α : Type} [Scalar α]

/-- The weight that a multiplier gives to the gradient of its term. -/
def pull (t : Term α) (l : α) : α := if t.equality then l else -l

theorem weight_eq_pull (t : Term α) (rho l s : α) :
    t.weight rho l s = t.pull (t.update rho l s) := by
  by_cases h : t.equality
  · rw [weight, pull, update, if_pos h, if_pos h, if_pos h]
  · rw [weight, pull, update, if_neg h, if_neg h, if_neg h]

end Term

namespace Layout

variable {α : Type} [Scalar α]

theorem zip_updateFrom (rho : α) {terms : List (Term α)} {values : List α}
    (h : values.length = terms.length) (lambda : List α) :
    terms.zip (updateFrom rho terms lambda values)
      = ((terms.zip lambda).zip values).map fun p ↦ (p.1.1, p.1.1.update rho p.1.2 p.2) := by
  induction terms generalizing lambda values with
  | nil => rfl
  | cons t terms ih =>
    rcases values with _ | ⟨s, values⟩
    · cases h
    rcases lambda with _ | ⟨l, lambda⟩
    · rfl
    · rw [updateFrom, List.zip_cons_cons, ih (Nat.succ.inj h)]
      rfl

theorem length_values (l : Layout α) (x rows : Point α) : (l.values x rows).length = l.size :=
  List.length_map _

end Layout

/-! ## Derivatives as weights

A column of a derivative is a weight of the rows, and a unit vector one of the variables. With these
weights a pairing of the split multipliers is one coordinate of the transposed product, less or plus
the multipliers of one variable. -/

namespace Matrix

/-- All rows are there, and all of them are whole. -/
structure HasShape {α : Type} (J : Matrix α) (m n : ℕ) : Prop where
  height : J.height = m
  width : J.width = n
  row : ∀ r ∈ J.rows, r.length = n

theorem HasShape.length_row {α : Type} {J : Matrix α} {m n : ℕ} (h : J.HasShape m n) {j : ℕ}
    (hj : j < m) : (J.row j).length = n := by
  rw [← h.height, Matrix.height] at hj
  rw [Matrix.row, List.getD_eq_getElem _ _ hj]
  exact h.row _ (List.getElem_mem hj)

variable {K : Type} [ExactScalar K]

/-- The entries of a column, by row. -/
def column (J : Matrix K) (i : ℕ) (j : ℕ) : K := Point.coord (J.row j) i

/-- The product of the transpose with a vector. -/
def pullback (J : Matrix K) (y : Point K) : Point K :=
  (List.range J.width).map fun i ↦ y.pairing (J.column i)

theorem HasShape.column_eq_zero {J : Matrix K} {m n : ℕ} (h : J.HasShape m n) (i : ℕ) {j : ℕ}
    (hj : m ≤ j) : J.column i j = 0 := by
  rw [← h.height, Matrix.height] at hj
  rw [column, Matrix.row, List.getD_eq_default _ _ hj, Point.coord_nil]

theorem length_pullback (J : Matrix K) (y : Point K) : (J.pullback y).length = J.width := by
  rw [pullback, List.length_map, List.length_range]

theorem coord_pullback (J : Matrix K) (y : Point K) {i : ℕ} (hi : i < J.width) :
    (J.pullback y).coord i = y.pairing (J.column i) := by
  have hlength : i < (J.pullback y).length := by rwa [length_pullback]
  rw [Point.coord, List.getD_eq_getElem _ _ hlength]
  simp only [pullback, List.getElem_map, List.getElem_range]

end Matrix

/-! ## The gradient of the merit, one coordinate at a time

The gradient is built by adding up rows and unit vectors. Each of its coordinates is a sum of
numbers, one for each term. -/

variable {K : Type} [ExactScalar K]

namespace Term

theorem length_addSlope {t : Term K} {J : Matrix K} {g : Point K}
    (hrow : ∀ j, t.source = .row j → (J.row j).length = g.length) (w : K) :
    (t.addSlope J w g).length = g.length := by
  rw [addSlope]
  split
  · rfl
  rcases ht : t.source with j | i
  · simp only
    rw [← hrow j ht, Point.spread_length, Point.addScaled, List.length_zipWith, hrow j ht,
      Nat.min_self]
  · exact List.length_modify _ _ _

theorem coord_addSlope {t : Term K} {J : Matrix K} {g : Point K}
    (hrow : ∀ j, t.source = .row j → (J.row j).length = g.length) (w : K) {i : ℕ}
    (hi : i < g.length) :
    (t.addSlope J w g).coord i
      = g.coord i + w * (t.sign * t.source.pick (J.column i) (Pi.single i 1)) := by
  rw [addSlope]
  split
  · rename_i hw
    rw [beq_iff_eq, Scalar.zero_eq] at hw
    rw [hw, zero_mul, add_zero]
  rcases ht : t.source with j | k
  · simp only
    rw [← hrow j ht, Point.spread_length, Point.coord_addScaled _ (hrow j ht).symm, Source.pick,
      Matrix.column, mul_assoc]
  · simp only
    rw [Point.coord_modify _ _ _ hi, Source.pick, Pi.single_apply]
    split
    · rw [mul_one]
    · rw [mul_zero, mul_zero, add_zero]

theorem length_foldl_addSlope {pairs : List (Term K × K)} {J : Matrix K} {g : Point K}
    (hrow : ∀ p ∈ pairs, ∀ j, p.1.source = .row j → (J.row j).length = g.length) :
    (pairs.foldl (fun g p ↦ p.1.addSlope J p.2 g) g).length = g.length := by
  induction pairs generalizing g with
  | nil => rfl
  | cons p pairs ih =>
    rw [List.forall_mem_cons] at hrow
    have hlength := length_addSlope hrow.1 p.2
    rw [List.foldl_cons, ih (by rw [hlength]; exact hrow.2), hlength]

theorem coord_foldl_addSlope {pairs : List (Term K × K)} {J : Matrix K} {g : Point K}
    (hrow : ∀ p ∈ pairs, ∀ j, p.1.source = .row j → (J.row j).length = g.length) {i : ℕ}
    (hi : i < g.length) :
    Point.coord (pairs.foldl (fun g p ↦ p.1.addSlope J p.2 g) g) i = g.coord i
      + (pairs.map fun p ↦
          p.2 * (p.1.sign * p.1.source.pick (J.column i) (Pi.single i 1))).sum := by
  induction pairs generalizing g with
  | nil => exact (add_zero _).symm
  | cons p pairs ih =>
    rw [List.forall_mem_cons] at hrow
    have hlength := length_addSlope hrow.1 p.2
    rw [List.foldl_cons, List.map_cons, List.sum_cons,
      ih (by rw [hlength]; exact hrow.2) (by rwa [hlength]), coord_addSlope hrow.1 p.2 hi,
      add_assoc]

end Term

namespace Merit

/-- The gradient of the merit runs over the multipliers that the update would give the terms. -/
theorem gradientAt_eq_foldl {α : Type} [Scalar α] (m : Merit α) (x g rows : Point α)
    (J : Matrix α) :
    m.gradientAt x g rows J
      = ((m.layout.terms.zip
          (m.layout.updateMultipliers m.lambda (m.layout.values x rows) m.rho)).map
        fun p ↦ (p.1, p.1.pull p.2)).foldl (fun g p ↦ p.1.addSlope J p.2 g) g := by
  rw [gradientAt, Layout.updateMultipliers,
    Layout.zip_updateFrom _ (m.layout.length_values x rows), List.map_map, List.foldl_map]
  simp only [Term.weight_eq_pull, Function.comp_apply]

/-- The multipliers that are reported of a descent of the merit that ended at a point. -/
def reported {α : Type} [Scalar α] (m : Merit α) (x rows : Point α) : Multipliers α :=
  m.layout.splitMultipliers (m.layout.updateMultipliers m.lambda (m.layout.values x rows) m.rho)

end Merit

/-! ## The gradient of the Lagrangian

Term by term the pull is what the Lagrangian has, and for an equality the opposite of it. Summed
over the terms, what is left besides the Lagrangian is what equalities count twice; they are the
terms of rows whose bounds are equal, so this is a sum over rows. -/

/-- The gradient of the Lagrangian, with one sign for all rows. -/
def Multipliers.lagrangianGradient (ms : Multipliers K) (g : Point K) (J : Matrix K) : Point K :=
  ((g.sub (J.pullback ms.rows)).sub ms.lower).add ms.upper

/-- The entries of equality rows, with zeros in the other places. -/
def Bounds.equalityPart (b : Bounds K) (y : Point K) : Point K :=
  y.mapIdx fun j l ↦ if b.equalityRow j then l else 0

theorem Bounds.pairing_equalityPart (b : Bounds K) (y : Point K) (c : ℕ → K) :
    (b.equalityPart y).pairing c = y.pairing fun j ↦ if b.equalityRow j then c j else 0 := by
  rw [Point.pairing, Point.pairing, equalityPart, List.length_mapIdx]
  refine Finset.sum_congr rfl fun j hj ↦ ?_
  have hlt : j < y.length := Finset.mem_range.mp hj
  have hlt' : j < (y.mapIdx fun j l ↦ if b.equalityRow j then l else 0).length := by
    rwa [List.length_mapIdx]
  rw [Point.coord, Point.coord, List.getD_eq_getElem _ _ hlt', List.getD_eq_getElem _ _ hlt,
    List.getElem_mapIdx]
  split
  · rfl
  · rw [zero_mul, mul_zero]

section Stationarity

variable {n : ℕ} {b : Bounds K} {g : Point K} {J : Matrix K}

theorem Term.pull_mul_pick {t : Term K} (ht : t ∈ (Layout.ofBounds n b).terms) (l : K)
    (c x : ℕ → K) :
    t.pull l * (t.sign * t.source.pick c x)
      = -1 * (l * (t.sign * t.source.pick c x)) + 2 * (l * (t.sign *
          t.source.pick (fun j ↦ if b.equalityRow j then c j else 0) fun _ ↦ 0)) := by
  rcases hs : t.source with j | i
  · rw [pull, (Layout.of_mem_ofBounds_row ht hs).2, Source.pick, Source.pick]
    by_cases hj : b.equalityRow j
    · rw [if_pos hj, if_pos hj]
      ring
    · rw [if_neg hj, if_neg hj]
      ring
  · rw [pull, Layout.of_mem_ofBounds_coordinate ht hs, Source.pick, Source.pick,
      if_neg Bool.false_ne_true]
    ring

theorem Layout.sum_pull (n : ℕ) (b : Bounds K) (lambda : List K) {c x : ℕ → K}
    (hc : ∀ j, b.rowLower.length ≤ j → c j = 0) (hx : ∀ i, n ≤ i → x i = 0) :
    (((ofBounds n b).terms.zip lambda).map fun p ↦
        p.1.pull p.2 * (p.1.sign * p.1.source.pick c x)).sum
      = -1 * ((ofBounds n b).splitMultipliers lambda).pairing c x
        + 2 * (b.equalityPart ((ofBounds n b).splitMultipliers lambda).rows).pairing c := by
  have hpull := List.map_congr_left fun p (hp : p ∈ (ofBounds n b).terms.zip lambda) ↦
    Term.pull_mul_pick (List.of_mem_zip hp).1 p.2 c x
  have hmask : ∀ j, b.rowLower.length ≤ j → (if b.equalityRow j then c j else 0) = 0 := by
    intro j hj
    rw [hc j hj, ite_self]
  rw [hpull, List.sum_map_add, List.sum_map_mul_left, List.sum_map_mul_left,
    ← pairing_splitMultipliers n b lambda hc hx,
    ← pairing_splitMultipliers n b lambda hmask fun _ _ ↦ rfl, Bounds.pairing_equalityPart]
  simp only [Multipliers.pairing, Point.pairing_zero, add_zero, sub_zero]

theorem length_row_of_mem (hJ : J.HasShape b.rowLower.length n) (lambda : List K) :
    ∀ p ∈ ((Layout.ofBounds n b).terms.zip lambda).map fun p ↦ (p.1, p.1.pull p.2),
      ∀ j, p.1.source = .row j → (J.row j).length = n := by
  intro p hp j hj
  obtain ⟨q, hq, rfl⟩ := List.mem_map.mp hp
  exact hJ.length_row (Layout.of_mem_ofBounds_row (List.of_mem_zip hq).1 hj).1

theorem Merit.length_gradientAt (hg : g.length = n) (hJ : J.HasShape b.rowLower.length n)
    (lambda : List K) (rho : K) (x c : Point K) :
    (Merit.gradientAt ⟨.ofBounds n b, lambda, rho⟩ x g c J).length = n := by
  subst hg
  rw [gradientAt_eq_foldl]
  exact Term.length_foldl_addSlope (length_row_of_mem hJ _)

theorem Merit.coord_gradientAt (hg : g.length = n) (hJ : J.HasShape b.rowLower.length n)
    (lambda : List K) (rho : K) (x c : Point K) {i : ℕ} (hi : i < n) :
    let m : Merit K := ⟨.ofBounds n b, lambda, rho⟩
    (m.gradientAt x g c J).coord i
      = g.coord i - (m.reported x c).pairing (J.column i) (Pi.single i 1)
        + 2 * (b.equalityPart (m.reported x c).rows).pairing (J.column i) := by
  intro m
  subst hg
  -- splitting wants weights that vanish beyond the last variable
  have hunit : ∀ k, g.length ≤ k → (Pi.single i 1 : ℕ → K) k = 0 := fun k hk ↦
    Pi.single_eq_of_ne (by omega) 1
  have hsum := Layout.sum_pull g.length b
    (m.layout.updateMultipliers m.lambda (m.layout.values x c) m.rho)
    (fun _ hj ↦ hJ.column_eq_zero i hj) hunit
  rw [gradientAt_eq_foldl, Term.coord_foldl_addSlope (length_row_of_mem hJ _) hi, List.map_map,
    reported]
  refine (congrArg (g.coord i + ·) hsum).trans ?_
  ring

namespace Multipliers

variable {ms : Multipliers K}

theorem length_lagrangianGradient (hg : g.length = n) (hJ : J.width = n)
    (hlower : ms.lower.length = n) (hupper : ms.upper.length = n) :
    (ms.lagrangianGradient g J).length = n := by
  have hpullback : (J.pullback ms.rows).length = n := (J.length_pullback _).trans hJ
  rw [lagrangianGradient, Point.add, Point.sub, Point.sub, List.length_zipWith,
    List.length_zipWith, List.length_zipWith, hg, hpullback, hlower, hupper, Nat.min_self,
    Nat.min_self, Nat.min_self]

theorem coord_lagrangianGradient (hg : g.length = n) (hJ : J.width = n)
    (hlower : ms.lower.length = n) (hupper : ms.upper.length = n) {i : ℕ} (hi : i < n) :
    (ms.lagrangianGradient g J).coord i
      = g.coord i - ms.pairing (J.column i) (Pi.single i 1) := by
  have hpullback : g.length = (J.pullback ms.rows).length := by rw [hg, J.length_pullback, hJ]
  have hfirst : (g.sub (J.pullback ms.rows)).length = g.length := by
    rw [Point.sub, List.length_zipWith, ← hpullback, Nat.min_self]
  have hsecond : ((g.sub (J.pullback ms.rows)).sub ms.lower).length = g.length := by
    rw [Point.sub, List.length_zipWith, hfirst, hg, hlower, Nat.min_self]
  rw [lagrangianGradient, Point.coord_add (by rw [hsecond, hg, hupper]),
    Point.coord_sub (by rw [hfirst, hg, hlower]), Point.coord_sub hpullback,
    J.coord_pullback _ (by rwa [hJ]), pairing, Point.pairing_single, Point.pairing_single]
  ring

end Multipliers

end Stationarity

namespace Merit

/-- **The reported multipliers and the gradient of the merit.** The two sides differ by twice the
equality rows' part of `Jᵀ mult_g`, and they agree exactly where that part vanishes. -/
theorem gradientAt_eq_lagrangianGradient_iff (n : ℕ) (b : Bounds K) (lambda : List K) (rho : K)
    (x c : Point K) {g : Point K} {J : Matrix K} (hg : g.length = n)
    (hJ : J.HasShape b.rowLower.length n) :
    let m : Merit K := ⟨.ofBounds n b, lambda, rho⟩
    let ms := m.reported x c
    m.gradientAt x g c J
        = (ms.lagrangianGradient g J).addScaled 2 (J.pullback (b.equalityPart ms.rows)) ∧
      (m.gradientAt x g c J = ms.lagrangianGradient g J ↔
        J.pullback (b.equalityPart ms.rows) = Point.zeros n) := by
  intro m ms
  obtain ⟨-, hlower, hupper⟩ : ms.rows.length = _ ∧ ms.lower.length = n ∧ ms.upper.length = n :=
    m.layout.length_splitMultipliers _
  have hmerit : (m.gradientAt x g c J).length = n := length_gradientAt hg hJ lambda rho x c
  have hlagrangian : (ms.lagrangianGradient g J).length = n :=
    Multipliers.length_lagrangianGradient hg hJ.width hlower hupper
  have hpart : (J.pullback (b.equalityPart ms.rows)).length = n :=
    (J.length_pullback _).trans hJ.width
  have hlengths : (ms.lagrangianGradient g J).length
      = (J.pullback (b.equalityPart ms.rows)).length := hlagrangian.trans hpart.symm
  -- both claims follow from the difference of one coordinate
  have hcoord : ∀ i < n, (m.gradientAt x g c J).coord i = (ms.lagrangianGradient g J).coord i
      + 2 * (J.pullback (b.equalityPart ms.rows)).coord i := by
    intro i hi
    rw [Multipliers.coord_lagrangianGradient hg hJ.width hlower hupper hi,
      J.coord_pullback _ (by rwa [hJ.width])]
    exact coord_gradientAt hg hJ lambda rho x c hi
  refine ⟨?_, ?_⟩
  · refine Point.ext_coord ?_ fun i hi ↦ ?_
    · rw [hmerit, Point.addScaled, List.length_zipWith, hlagrangian, hpart, Nat.min_self]
    · rw [Point.coord_addScaled _ hlengths, hcoord i (hmerit ▸ hi)]
  · constructor
    · intro heq
      refine Point.ext_coord (by rw [hpart, Point.length_zeros]) fun i hi ↦ ?_
      have hi' := hcoord i (hpart ▸ hi)
      rw [heq] at hi'
      rw [Point.coord_zeros]
      linarith
    · intro hzero
      refine Point.ext_coord (hmerit.trans hlagrangian.symm) fun i hi ↦ ?_
      rw [hcoord i (hmerit ▸ hi), hzero, Point.coord_zeros, mul_zero, add_zero]

/-- An equality row, a row above its upper bound and a variable below its lower bound: of the three
only the first one counts twice. -/
theorem gradientAt_of_three_kinds :
    let b : Bounds ℚ := ⟨some [0, 0], some [5, 5], [1, 0], [1, 3]⟩
    let m : Merit ℚ := ⟨.ofBounds 2 b, [0, 0, 0, 0, 0, 0, 0], 1⟩
    let J : Matrix ℚ := ⟨2, [[1, 0], [0, 1]]⟩
    J.HasShape 2 2 ∧ (m.reported [2, -1] [2, 4]).lagrangianGradient [1, 1] J = [0, 1] ∧
      m.gradientAt [2, -1] [1, 1] [2, 4] J = [2, 1] := by
  intro b m J
  have hJ : J.HasShape b.rowLower.length 2 := ⟨rfl, rfl, by decide⟩
  have hlagrangian : (m.reported [2, -1] [2, 4]).lagrangianGradient [1, 1] J = [0, 1] := by
    decide +kernel
  refine ⟨hJ, hlagrangian, ?_⟩
  rw [(gradientAt_eq_lagrangianGradient_iff 2 b m.lambda m.rho [2, -1] [2, 4] rfl hJ).1]
  decide +kernel

/-- Where the descent of a problem with the equality row `x = 0` ends, the gradient of the merit is
zero and that of the Lagrangian is not. -/
theorem gradientAt_ne_lagrangianGradient :
    let m : Merit ℚ := ⟨.ofBounds 1 ⟨none, none, [0], [0]⟩, [0], 1⟩
    m.gradientAt [-1] [1] [-1] ⟨1, [[1]]⟩ = [0] ∧
      (m.reported [-1] [-1]).lagrangianGradient [1] ⟨1, [[1]]⟩ = [2] := by
  decide +kernel

end Merit

end NonlinearProgram
