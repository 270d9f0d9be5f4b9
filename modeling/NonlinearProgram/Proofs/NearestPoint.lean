import Mathlib.Algebra.Order.Group.MinMax
import Mathlib.Algebra.Order.Group.Pointwise.Interval
import NonlinearProgram.Proofs.Projection

/-!
# The nearest point within the bounds

A variable has a finite lower bound, a finite upper one, both or none (`Bounds.floor?` and
`Bounds.ceiling?`), and the box of a list of bounds is where all of these hold. The projection walks
over a flat list of terms, in which a later side may move what an earlier one moved already. With
bounds in order it does not, so the walk comes to clamping each variable by itself, and all that is
said here about pairs of points follows from clamping numbers: it moves no two of them apart, and
none of them further than to any number in between.

In the max norm (`Point.maxNorm_le_iff`) the projected point is therefore a nearest point of the box
(`Layout.project_nearest`).
-/

namespace NonlinearProgram

variable {K : Type} [ExactScalar K]

/-! ## The max norm -/

namespace Point

theorem maxNorm_le_iff {v : Point K} {tol : K} :
    v.maxNorm ≤ tol ↔ 0 ≤ tol ∧ ∀ i < v.length, |v.coord i| ≤ tol := by
  have hfold : v.maxNorm = (v.map Scalar.abs).foldl Scalar.max 0.0 := by
    rw [maxNorm, List.foldl_map]
  rw [hfold, Scalar.foldl_max_le_iff, Scalar.zero_eq, List.forall_mem_map]
  refine and_congr_right' ⟨fun h i hi ↦ ?_, fun h a ha ↦ ?_⟩
  · rw [coord, List.getD_eq_getElem _ _ hi]
    exact h _ (List.getElem_mem hi)
  · obtain ⟨i, hi, rfl⟩ := List.getElem_of_mem ha
    have hcoord := h i hi
    rwa [coord, List.getD_eq_getElem _ _ hi] at hcoord

theorem maxNorm_nonneg (v : Point K) : 0 ≤ v.maxNorm := (maxNorm_le_iff.mp le_rfl).1

theorem length_sub {v w : Point K} (hlength : v.length = w.length) :
    (v.sub w).length = v.length := by
  rw [sub, List.length_zipWith, hlength, min_self]

theorem maxNorm_sub_le {v w v' w' : Point K} (hlength : v.length = w.length)
    (hlength' : v'.length = w'.length) (hsame : v.length = v'.length)
    (h : ∀ k, |v.coord k - w.coord k| ≤ |v'.coord k - w'.coord k|) :
    (v.sub w).maxNorm ≤ (v'.sub w').maxNorm := by
  refine maxNorm_le_iff.mpr ⟨maxNorm_nonneg _, fun k hk ↦ ?_⟩
  have hk' : k < (v'.sub w').length := by
    rwa [length_sub hlength', ← hsame, ← length_sub hlength]
  calc |(v.sub w).coord k| = |v.coord k - w.coord k| := by rw [coord_sub hlength]
    _ ≤ |v'.coord k - w'.coord k| := h k
    _ = |(v'.sub w').coord k| := by rw [coord_sub hlength']
    _ ≤ (v'.sub w').maxNorm := (maxNorm_le_iff.mp le_rfl).2 k hk'

end Point

/-! ## Finite bounds -/

namespace Bounds

variable {n : ℕ} {b : Bounds K} {k : ℕ} {lo hi : K}

/-- The lower bound of a variable, if it has a finite one. -/
def floor? (b : Bounds K) (k : ℕ) : Option K :=
  (b.pair? k).bind fun pair ↦ if Term.bounded pair.1 then some pair.1 else none

/-- The upper bound of a variable, if it has a finite one. -/
def ceiling? (b : Bounds K) (k : ℕ) : Option K :=
  (b.pair? k).bind fun pair ↦ if Term.bounded pair.2 then some pair.2 else none

/-- A value is within the finite bounds of a variable. -/
def Within (b : Bounds K) (k : ℕ) (v : K) : Prop :=
  (∀ lo ∈ b.floor? k, lo ≤ v) ∧ ∀ hi ∈ b.ceiling? k, v ≤ hi

theorem floor?_eq_some_iff :
    b.floor? k = some lo ↔ ∃ hi, b.pair? k = some (lo, hi) ∧ Term.bounded lo := by
  simp [floor?, Option.bind_eq_some_iff]

theorem ceiling?_eq_some_iff :
    b.ceiling? k = some hi ↔ ∃ lo, b.pair? k = some (lo, hi) ∧ Term.bounded hi := by
  simp [ceiling?, Option.bind_eq_some_iff]

theorem Boxed.floor_le_ceiling (hb : b.Boxed n) (hlo : b.floor? k = some lo)
    (hhi : b.ceiling? k = some hi) : lo ≤ hi := by
  obtain ⟨_, hpair, -⟩ := floor?_eq_some_iff.mp hlo
  obtain ⟨_, hpair', -⟩ := ceiling?_eq_some_iff.mp hhi
  rw [hpair, Option.some_inj, Prod.mk.injEq] at hpair'
  exact (hb k lo hi (by rw [hpair, hpair'.2])).2

end Bounds

/-! ## Clamping numbers

What clamping does to one number and two bounds. Nothing about points is needed for it. -/

/-- A number moved between two bounds, of which either may be missing. -/
def clampBetween (floor ceiling : Option K) (v : K) : K :=
  let raised := floor.elim v (max v)
  ceiling.elim raised (min raised)

section Clamp

variable {floor ceiling : Option K}

theorem abs_clampBetween_sub_le (floor ceiling : Option K) (v w : K) :
    |clampBetween floor ceiling v - clampBetween floor ceiling w| ≤ |v - w| := by
  have hraise : |floor.elim v (max v) - floor.elim w (max w)| ≤ |v - w| := by
    rcases floor with _ | lo
    · exact le_rfl
    · exact abs_max_sub_max_le_abs v w lo
  rcases ceiling with _ | hi
  · exact hraise
  · refine le_trans ?_ hraise
    have hlower := abs_min_sub_min_le_max (floor.elim v (max v)) hi (floor.elim w (max w)) hi
    rwa [sub_self, abs_zero, max_eq_left (abs_nonneg _)] at hlower

theorem clampBetween_of_mem {v : K} (hlo : ∀ lo ∈ floor, lo ≤ v) (hhi : ∀ hi ∈ ceiling, v ≤ hi) :
    clampBetween floor ceiling v = v := by
  have hraise : floor.elim v (max v) = v := by
    rcases floor with _ | lo
    · rfl
    · exact max_eq_left (hlo lo rfl)
  rw [clampBetween, hraise]
  rcases ceiling with _ | hi
  · rfl
  · exact min_eq_left (hhi hi rfl)

theorem le_clampBetween (h : ∀ lo ∈ floor, ∀ hi ∈ ceiling, lo ≤ hi) (v : K) :
    ∀ lo ∈ floor, lo ≤ clampBetween floor ceiling v := by
  rintro lo ⟨⟩
  rcases ceiling with _ | hi
  · exact le_max_right v lo
  · exact le_min (le_max_right v lo) (h lo rfl hi rfl)

theorem clampBetween_le (v : K) : ∀ hi ∈ ceiling, clampBetween floor ceiling v ≤ hi := by
  rintro hi ⟨⟩
  exact min_le_right _ _

/-- A number is moved no further than to any number between the bounds, since it stops on its way to
that number. -/
theorem abs_clampBetween_sub_self_le {w : K} (hlo : ∀ lo ∈ floor, lo ≤ w)
    (hhi : ∀ hi ∈ ceiling, w ≤ hi) (v : K) : |clampBetween floor ceiling v - v| ≤ |w - v| := by
  have hraise : floor.elim v (max v) ∈ Set.uIcc v w := by
    rcases floor with _ | lo
    · exact Set.left_mem_uIcc
    · exact ⟨inf_le_left.trans (le_max_left v lo), max_le_max le_rfl (hlo lo rfl)⟩
  refine Set.abs_sub_left_of_mem_uIcc ?_
  rcases ceiling with _ | hi
  · exact hraise
  · exact ⟨le_min hraise.1 (inf_le_right.trans (hhi hi rfl)), (min_le_left _ _).trans hraise.2⟩

end Clamp

/-! ## Projection

The projected coordinate of a variable is its clamped number, and each fact about clamping becomes
one about points, coordinate by coordinate. The maximum over the coordinates then is at most another
one where it is so in every coordinate. -/

theorem Term.clamp_eq_clampBetween (lo hi v : K) :
    clamp lo hi v = clampBetween (if bounded lo then some lo else none)
      (if bounded hi then some hi else none) v := by
  have hraise : raise lo v = (if bounded lo then some lo else none).elim v (max v) := by
    by_cases hlo : bounded lo
    · rw [raise, if_pos hlo, Option.elim_some]
      by_cases hv : v < lo
      · rw [if_pos ⟨hlo, hv⟩, max_eq_right hv.le]
      · rw [if_neg fun h ↦ hv h.2, max_eq_left (not_lt.mp hv)]
    · rw [raise, if_neg hlo, if_neg fun h ↦ hlo h.1, Option.elim_none]
  rw [clamp, clampBetween, ← hraise, lower]
  by_cases hhi : bounded hi
  · rw [if_pos hhi, Option.elim_some]
    by_cases hv : hi < raise lo v
    · rw [if_pos ⟨hhi, hv⟩, min_eq_right hv.le]
    · rw [if_neg fun h ↦ hv h.2, min_eq_left (not_lt.mp hv)]
  · rw [if_neg hhi, if_neg fun h ↦ hhi h.1, Option.elim_none]

namespace Layout

variable {n : ℕ} {b : Bounds K} {x : Point K}

/-- The projection moves every variable between its finite bounds. -/
theorem coord_project_eq_clampBetween (hb : b.Boxed n) (hx : x.length = n) (k : ℕ) :
    ((ofBounds n b).project x).coord k
      = clampBetween (b.floor? k) (b.ceiling? k) (x.coord k) := by
  by_cases hk : k < n
  · rw [coord_project n b (hx ▸ hk), Bounds.floor?, Bounds.ceiling?]
    rcases b.pair? k with _ | ⟨lo, hi⟩
    · rfl
    · exact Term.clamp_eq_clampBetween lo hi _
  · -- beyond the last variable there is neither a coordinate nor a bound
    have hnone : b.pair? k = none :=
      Option.eq_none_iff_forall_ne_some.mpr fun pair hpair ↦ hk (hb k _ _ hpair).1
    have hout : x.length ≤ k := hx.symm ▸ Nat.not_lt.mp hk
    rw [Point.coord_of_length_le (by rwa [length_project]), Point.coord_of_length_le hout,
      Bounds.floor?, Bounds.ceiling?, hnone]
    rfl

theorem within_project (hb : b.Boxed n) (hx : x.length = n) (k : ℕ) :
    b.Within k (((ofBounds n b).project x).coord k) := by
  rw [coord_project_eq_clampBetween hb hx]
  exact ⟨le_clampBetween (fun lo hlo hi hhi ↦ hb.floor_le_ceiling hlo hhi) _, clampBetween_le _⟩

theorem coord_project_of_within (hb : b.Boxed n) (hx : x.length = n) {k : ℕ}
    (h : b.Within k (x.coord k)) : ((ofBounds n b).project x).coord k = x.coord k := by
  rw [coord_project_eq_clampBetween hb hx]
  exact clampBetween_of_mem h.1 h.2

theorem project_project (hb : b.Boxed n) (hx : x.length = n) :
    (ofBounds n b).project ((ofBounds n b).project x) = (ofBounds n b).project x := by
  have hlength : ((ofBounds n b).project x).length = n := (length_project _ x).trans hx
  refine Point.ext_coord (length_project _ _) fun k _ ↦ ?_
  exact coord_project_of_within hb hlength (within_project hb hx k)

theorem project_congr_rows (b : Bounds K) (rowLower rowUpper x : Point K) :
    (ofBounds n { b with rowLower := rowLower, rowUpper := rowUpper }).project x
      = (ofBounds n b).project x := by
  rw [project, project, ofBounds, ofBounds, List.foldl_append, List.foldl_append,
    foldl_enforce_ofBounds_row, foldl_enforce_ofBounds_row]

theorem maxNorm_project_sub_le {y : Point K} (hb : b.Boxed n) (hx : x.length = n)
    (hy : y.length = n) :
    (((ofBounds n b).project x).sub ((ofBounds n b).project y)).maxNorm ≤ (x.sub y).maxNorm := by
  have hpx := (length_project (ofBounds n b) x).trans hx
  have hpy := (length_project (ofBounds n b) y).trans hy
  refine Point.maxNorm_sub_le (hpx.trans hpy.symm) (hx.trans hy.symm) (hpx.trans hx.symm)
    fun k ↦ ?_
  rw [coord_project_eq_clampBetween hb hx, coord_project_eq_clampBetween hb hy]
  exact abs_clampBetween_sub_le _ _ _ _

theorem maxNorm_project_sub_self_le {z : Point K} (hb : b.Boxed n) (hx : x.length = n)
    (hz : z.length = n) (hwithin : ∀ k, b.Within k (z.coord k)) :
    (((ofBounds n b).project x).sub x).maxNorm ≤ (z.sub x).maxNorm := by
  have hpx := (length_project (ofBounds n b) x).trans hx
  refine Point.maxNorm_sub_le (hpx.trans hx.symm) (hz.trans hx.symm) (hpx.trans hz.symm)
    fun k ↦ ?_
  rw [coord_project_eq_clampBetween hb hx]
  exact abs_clampBetween_sub_self_le (hwithin k).1 (hwithin k).2 _

/-- **The projection goes to a nearest point of the box.** It clamps each variable to its finite
bounds, whatever the rows are; it moves no two points apart, and no point further than to any other
point of the box. -/
theorem project_nearest (hb : b.Boxed n) (hx : x.length = n) :
    let l := ofBounds n b
    (l.project x).length = n ∧
      (∀ k, (l.project x).coord k = clampBetween (b.floor? k) (b.ceiling? k) (x.coord k)) ∧
      (∀ k, b.Within k (x.coord k) → (l.project x).coord k = x.coord k) ∧
      (∀ t ∈ l.terms, ∀ k, t.source = .coordinate k →
        t.equality = false ∧ 0 ≤ t.distance ((l.project x).coord k)) ∧
      (∀ rowLower rowUpper,
        (ofBounds n { b with rowLower := rowLower, rowUpper := rowUpper }).project x
          = l.project x) ∧
      l.project (l.project x) = l.project x ∧
      (∀ y : Point K, y.length = n →
        ((l.project x).sub (l.project y)).maxNorm ≤ (x.sub y).maxNorm) ∧
      ∀ z : Point K, z.length = n → (∀ k, b.Within k (z.coord k)) →
        ((l.project x).sub x).maxNorm ≤ (z.sub x).maxNorm := by
  intro l
  refine ⟨(length_project l x).trans hx, coord_project_eq_clampBetween hb hx,
    fun k hk ↦ coord_project_of_within hb hx hk, fun t ht k hk ↦ ?_,
    fun rowLower rowUpper ↦ project_congr_rows b rowLower rowUpper x, project_project hb hx,
    fun y hy ↦ maxNorm_project_sub_le hb hx hy,
    fun z hz hwithin ↦ maxNorm_project_sub_self_le hb hx hz hwithin⟩
  exact ⟨of_mem_ofBounds_coordinate ht hk, distance_project_nonneg hb hx ht hk⟩

/-- An equality row, and three variables: one with a finite lower bound, one with a finite upper
bound, and one with both. -/
def shelf : Bounds ℚ where
  lower := some [0, -10 ^ 30, 2]
  upper := some [10 ^ 30, 5, 3]
  rowLower := [4]
  rowUpper := [4]

/-- Each of the three variables is moved, the second one furthest, and no point of the box is nearer
than that. -/
theorem project_nearest_shelf :
    let l := ofBounds 3 shelf
    let x : Point ℚ := [-1, 7, 4]
    shelf.Boxed 3 ∧ x.length = 3 ∧ l.project x = [0, 5, 3] ∧ l.project [0, 5, 3] = [0, 5, 3] ∧
      ((l.project x).sub (l.project [1, 6, 5])).maxNorm ≤ (x.sub [1, 6, 5]).maxNorm ∧
      ((l.project x).sub x).maxNorm = 2 ∧
      ∀ z : Point ℚ, z.length = 3 → (∀ k, shelf.Within k (z.coord k)) → 2 ≤ (z.sub x).maxNorm := by
  intro l x
  have hboxed : shelf.Boxed 3 := by
    rintro (_ | _ | _ | k) lo hi hpair <;> cases hpair <;> norm_num
  have hproject : l.project x = [0, 5, 3] := by decide +kernel
  have hnorm : ((l.project x).sub x).maxNorm = 2 := by decide +kernel
  obtain ⟨-, -, -, -, -, hagain, hapart, hnearest⟩ := project_nearest hboxed (x := x) rfl
  refine ⟨hboxed, rfl, hproject, hproject ▸ hagain, hapart _ rfl, hnorm, fun z hz hwithin ↦ ?_⟩
  exact hnorm.symm.le.trans (hnearest z hz hwithin)

end Layout

end NonlinearProgram
