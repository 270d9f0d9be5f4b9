import Mathlib.Algebra.Field.Rat
import Mathlib.Algebra.Order.Field.Rat
import Mathlib.Data.List.GetD
import Mathlib.Tactic.Linarith
import Mathlib.Tactic.NormNum.OfScientific
import Mathlib.Tactic.Ring
import NonlinearProgram.Point

/-!
# Exact arithmetic

The method is written over the operations of `Scalar`, of which no law is assumed. A statement about
exact arithmetic is one about every linearly ordered field. What a field lacks (a square root, a
value above all others, an undefined value) is part of `ExactScalar` and has no laws, so nothing can
be derived from it.

The operations of the method agree with those of the field by definition. The lemmas here restate
the ones that have other names, and read the coordinates of points.

## Representation

`ExactScalar` is a class of fields and not of scalars, so that the algebra of a field is found first
and `ring`, `linarith` and the order lemmas apply to the terms of the method as they stand. The
converse, that the scalars at hand are exact, is the proposition `Scalar.Exact`: a theorem about all
scalars can have an exact part only in this form.
-/

namespace NonlinearProgram

/-- A linearly ordered field, with values for the operations that a field does not have. -/
class ExactScalar (K : Type) extends Field K, LinearOrder K, IsStrictOrderedRing K where
  root : K → K
  infinite : K
  absent : K

/-- Exact arithmetic is arithmetic on which the method can run. -/
instance ExactScalar.scalar {K : Type} [ExactScalar K] : Scalar K where
  toAdd := inferInstance
  toSub := inferInstance
  toMul := inferInstance
  toDiv := inferInstance
  toNeg := inferInstance
  toLT := inferInstance
  toLE := inferInstance
  toBEq := instBEqOfDecidableEq
  toOfScientific := inferInstance
  decidableLT := inferInstance
  decidableLE := inferInstance
  abs a := |a|
  sqrt := ExactScalar.root
  isFinite _ := true
  ofInt n := n
  infinity := ExactScalar.infinite
  undefined := ExactScalar.absent

/-- The operations are those of a linearly ordered field. -/
def Scalar.Exact (α : Type) [s : Scalar α] : Prop :=
  ∃ e : ExactScalar α, @ExactScalar.scalar α e = s

/-- The rational numbers, with roots that are exact where they are rational. -/
instance : ExactScalar ℚ where
  root q := (Nat.sqrt q.num.natAbs : ℚ) / Nat.sqrt q.den
  infinite := 10 ^ 308
  absent := 0

variable {K : Type} [ExactScalar K]

namespace Scalar

@[simp] theorem zero_eq : (0.0 : K) = 0 := by norm_num

@[simp] theorem one_eq : (1.0 : K) = 1 := by norm_num

@[simp] theorem max_eq (a b : K) : Scalar.max a b = Max.max a b := by
  by_cases hba : b < a
  · rw [Scalar.max, if_pos hba, max_eq_left hba.le]
  · rw [Scalar.max, if_neg hba, if_pos (beq_self_eq_true b), max_eq_right (not_lt.mp hba)]

@[simp] theorem min_eq (a b : K) : Scalar.min a b = Min.min a b := by
  by_cases hab : a < b
  · rw [Scalar.min, if_pos hab, min_eq_left hab.le]
  · rw [Scalar.min, if_neg hab, if_pos (beq_self_eq_true b), min_eq_right (not_lt.mp hab)]

end Scalar

namespace Point

@[simp] theorem coord_nil (i : ℕ) : Point.coord ([] : Point K) i = 0 := by simp [Point.coord]

@[simp] theorem coord_cons_zero (a : K) (v : Point K) : Point.coord (a :: v) 0 = a := rfl

@[simp] theorem coord_cons_succ (a : K) (v : Point K) (i : ℕ) :
    Point.coord (a :: v) (i + 1) = v.coord i := rfl

theorem coord_of_length_le {v : Point K} {i : ℕ} (h : v.length ≤ i) : v.coord i = 0 := by
  rw [coord, List.getD_eq_default _ _ h, Scalar.zero_eq]

@[simp] theorem coord_zeros (n i : ℕ) : (zeros n : Point K).coord i = 0 := by
  rw [coord, zeros, Scalar.zero_eq, List.getD_eq_getElem?_getD, List.getElem?_replicate]
  split <;> rfl

@[simp] theorem length_zeros {α : Type} [Scalar α] (n : ℕ) : (zeros n : Point α).length = n :=
  List.length_replicate

theorem getElem?_eq_coord {α : Type} [Scalar α] {v : Point α} {i : ℕ} (hi : i < v.length) :
    v[i]? = some (v.coord i) := by
  rw [coord, List.getElem?_eq_getElem hi, List.getD_eq_getElem _ _ hi]

/-- Points of one length are equal where their coordinates are. -/
theorem ext_coord {v w : Point K} (hlength : v.length = w.length)
    (h : ∀ i < v.length, v.coord i = w.coord i) : v = w := by
  refine List.ext_getElem hlength fun i hv hw ↦ ?_
  have hi := h i hv
  rwa [coord, coord, List.getD_eq_getElem _ _ hv, List.getD_eq_getElem _ _ hw] at hi

theorem coord_set_of_ne (v : Point K) (a : K) {i k : ℕ} (h : i ≠ k) :
    Point.coord (v.set i a) k = v.coord k := by
  rw [coord, coord, List.getD_eq_getElem?_getD, List.getD_eq_getElem?_getD,
    List.getElem?_set_ne h]

theorem coord_set_self {v : Point K} {i : ℕ} (hi : i < v.length) (a : K) :
    Point.coord (v.set i a) i = a := by
  rw [coord, List.getD_eq_getElem _ _ (by rwa [List.length_set]), List.getElem_set_self]

theorem coord_modify (v : Point K) (f : K → K) (k : ℕ) {i : ℕ} (hi : i < v.length) :
    Point.coord (v.modify k f) i = if k = i then f (v.coord i) else v.coord i := by
  have hlength : i < (v.modify k f).length := by rwa [List.length_modify]
  rw [coord, coord, List.getD_eq_getElem _ _ hlength, List.getD_eq_getElem _ _ hi,
    List.getElem_modify]

/-- Coordinates beyond the last one are zero on both sides. -/
theorem coord_zipWith {f : K → K → K} (hf : f 0 0 = 0) {v w : Point K}
    (hlength : v.length = w.length) (i : ℕ) :
    Point.coord (List.zipWith f v w) i = f (v.coord i) (w.coord i) := by
  induction v generalizing w i with
  | nil =>
    rw [List.zipWith_nil_left, coord_nil, coord_of_length_le (hlength.symm.le.trans i.zero_le), hf]
  | cons a v ih =>
    rcases w with _ | ⟨b, w⟩
    · cases hlength
    · rcases i with _ | i
      · rfl
      · exact ih (Nat.succ.inj hlength) i

theorem coord_add {v w : Point K} (hlength : v.length = w.length) (i : ℕ) :
    (v.add w).coord i = v.coord i + w.coord i :=
  coord_zipWith (add_zero 0) hlength i

theorem coord_sub {v w : Point K} (hlength : v.length = w.length) (i : ℕ) :
    (v.sub w).coord i = v.coord i - w.coord i :=
  coord_zipWith (sub_zero 0) hlength i

theorem coord_addScaled {v w : Point K} (a : K) (hlength : v.length = w.length) (i : ℕ) :
    (v.addScaled a w).coord i = v.coord i + a * w.coord i :=
  coord_zipWith (by rw [mul_zero, add_zero]) hlength i

end Point

end NonlinearProgram
