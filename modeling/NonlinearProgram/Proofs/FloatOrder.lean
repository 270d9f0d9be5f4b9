import Mathlib.Data.Prod.Lex
import NonlinearProgram.Scalar

/-!
# The order of floating-point numbers

Comparison of floating-point numbers is defined by cases on their decoded forms. `FloatOrder.rank`
gives each number except the undefined one a place in a linear order: first by the side of zero on
which it lies, infinities beyond all others, then by exponent, then by mantissa. `a < b` says that
both have a place and that of `a` comes first, so the order is transitive and irreflexive whatever
the operands are, and nothing is less than, or greater than, the undefined number.

The undefined number is the one without a place (`isUndefined_eq_false_iff`). Defined numbers are
linearly ordered, and the larger or smaller of two is what it is in any such order; the largest of
a list takes no notice of undefined values (`foldl_max_le_iff`).
-/

namespace NonlinearProgram

namespace FloatOrder

open Float.Model (UnpackedFloat)

/-! ## Places

The linear order is a lexicographic one, so that transitivity comes with it. The cases of the
definition of `<` are gone through once, in `unpacked_lt_iff`. -/

/-- The place of a decoded number in the order. -/
def rank : UnpackedFloat → Option (ℤ ×ₗ ℤ ×ₗ ℤ)
  | .notANumber => none
  | .infinity .negative => some (toLex (-2, toLex (0, 0)))
  | .finite .negative mantissa exponent _ => some (toLex (-1, toLex (-exponent, -mantissa)))
  | .zero _ => some (toLex (0, toLex (0, 0)))
  | .finite .positive mantissa exponent _ => some (toLex (1, toLex (exponent, mantissa)))
  | .infinity .positive => some (toLex (2, toLex (0, 0)))

theorem unpacked_lt_iff (a b : UnpackedFloat) :
    a.lt b = true ↔ ∃ r q, rank a = some r ∧ rank b = some q ∧ r < q := by
  rcases a with (_ | _) | _ | (_ | _) | ⟨_ | _, m, e, hm⟩ <;>
    rcases b with (_ | _) | _ | (_ | _) | ⟨_ | _, k, f, hk⟩ <;>
    dsimp only [rank, UnpackedFloat.lt, UnpackedFloat.compare] <;>
    simp [Prod.Lex.toLex_lt_toLex, Ordering.swap_eq_lt, Ordering.then_eq_lt, Ordering.then_eq_gt,
      compare_lt_iff_lt, compare_gt_iff_gt]
  all_goals decide

/-- `a < b` says that both have a place and that of `a` comes first. -/
theorem lt_iff {a b : Float} :
    a < b ↔ ∃ r q, rank a.toModel.unpack = some r ∧ rank b.toModel.unpack = some q ∧ r < q := by
  rw [← unpacked_lt_iff]
  show decide (a.toModel < b.toModel) = true ↔ _
  rw [decide_eq_true_iff]
  exact Iff.rfl

/-- `a ≤ b` says that one comes first or that they compare equal, so the undefined number is not
even at most itself. -/
theorem le_iff {a b : Float} : a ≤ b ↔ a < b ∨ (a == b) = true := by
  have hle : a.toModel.unpack.le b.toModel.unpack = true ↔
      a.toModel.unpack.lt b.toModel.unpack = true ∨
        a.toModel.unpack.beq b.toModel.unpack = true := by
    have hbeq : a.toModel.unpack.beq b.toModel.unpack
        = (a.toModel.unpack.compare b.toModel.unpack == some .eq) := rfl
    rw [UnpackedFloat.le, UnpackedFloat.lt, hbeq]
    rcases a.toModel.unpack.compare b.toModel.unpack with _ | _ | _ | _ <;> decide
  have hlt : a < b ↔ a.toModel.unpack.lt b.toModel.unpack = true := by
    rw [lt_iff, unpacked_lt_iff]
  rw [hlt]
  show decide (a.toModel ≤ b.toModel) = true ↔ _
  rw [decide_eq_true_iff]
  exact hle

theorem unpacked_of_beq {a b : UnpackedFloat} (h : a.beq b = true) :
    a = b ∨ ∃ s t, a = .zero s ∧ b = .zero t := by
  have hcompare : a.compare b = some .eq := eq_of_beq h
  rcases a with (_ | _) | _ | (_ | _) | ⟨_ | _, m, e, hm⟩ <;>
    rcases b with (_ | _) | _ | (_ | _) | ⟨_ | _, k, f, hk⟩ <;>
    dsimp only [UnpackedFloat.compare] at hcompare <;>
    simp only [Option.some_inj, reduceCtorEq, Ordering.swap_eq_eq, Ordering.then_eq_eq,
      compare_eq_iff_eq] at hcompare
  all_goals first
    | exact .inl rfl
    | exact .inr ⟨_, _, rfl, rfl⟩
    | obtain ⟨rfl, rfl⟩ := hcompare
      exact .inl rfl

/-- The sign of a zero is lost in the difference to a number that is not zero. -/
theorem sub_eq_of_beq {a b c : Float} (hab : (a == b) = true)
    (hc : ∃ s m e hm, c.toModel.unpack = .finite s m e hm) : a - c = b - c := by
  have hunpack : a.toModel.unpack.beq b.toModel.unpack = true := hab
  obtain ⟨s, m, e, hm, hc⟩ := hc
  show Float.ofModel (.pack (.sub .binary64 a.toModel.unpack c.toModel.unpack))
    = Float.ofModel (.pack (.sub .binary64 b.toModel.unpack c.toModel.unpack))
  rcases unpacked_of_beq hunpack with h | ⟨s, t, ha, hb⟩
  · rw [h]
  · rw [ha, hb, hc]
    rfl

theorem lt_irrefl (a : Float) : ¬a < a := by
  intro h
  obtain ⟨r, q, hr, hq, hrq⟩ := lt_iff.mp h
  rw [hr, Option.some_inj] at hq
  exact hrq.ne hq

theorem lt_trans {a b c : Float} (hab : a < b) (hbc : b < c) : a < c := by
  obtain ⟨r, q, hr, hq, hrq⟩ := lt_iff.mp hab
  obtain ⟨q', t, hq', ht, hqt⟩ := lt_iff.mp hbc
  rw [hq, Option.some_inj] at hq'
  exact lt_iff.mpr ⟨r, t, hr, ht, hrq.trans (hq' ▸ hqt)⟩

theorem lt_asymm {a b : Float} (hab : a < b) : ¬b < a := fun hba ↦ lt_irrefl a (lt_trans hab hba)

/-- The larger of a number and a positive one is not negative, even if the former is undefined. -/
theorem not_max_lt_zero {b : Float} (hpos : 0.0 < b) (hdef : (b == b) = true) (a : Float) :
    ¬Scalar.max a b < 0.0 := by
  by_cases hba : b < a
  · rw [Scalar.max, if_pos hba]
    exact lt_asymm (lt_trans hpos hba)
  · rw [Scalar.max, if_neg hba, if_pos hdef]
    exact lt_asymm hpos

/-! ## Places and undefined numbers

The two zeros share a place, and no other two numbers do. So to compare equal is to have one place,
and to be undefined is to have none. -/

theorem unpacked_beq_iff (a b : UnpackedFloat) :
    a.beq b = true ↔ ∃ r, rank a = some r ∧ rank b = some r := by
  have hcompare : a.beq b = true ↔ a.compare b = some .eq := beq_iff_eq
  rw [hcompare]
  rcases a with (_ | _) | _ | (_ | _) | ⟨_ | _, m, e, hm⟩ <;>
    rcases b with (_ | _) | _ | (_ | _) | ⟨_ | _, k, f, hk⟩ <;>
    dsimp only [rank, UnpackedFloat.compare] <;>
    simp [Ordering.swap_eq_eq, Ordering.then_eq_eq]
  all_goals first | decide | omega

theorem beq_iff {a b : Float} :
    (a == b) = true ↔ ∃ r, rank a.toModel.unpack = some r ∧ rank b.toModel.unpack = some r :=
  unpacked_beq_iff a.toModel.unpack b.toModel.unpack

theorem le_iff_rank {a b : Float} :
    a ≤ b ↔ ∃ r q, rank a.toModel.unpack = some r ∧ rank b.toModel.unpack = some q ∧ r ≤ q := by
  rw [le_iff, lt_iff, beq_iff]
  constructor
  · rintro (⟨r, q, hr, hq, hlt⟩ | ⟨r, hr, hq⟩)
    · exact ⟨r, q, hr, hq, hlt.le⟩
    · exact ⟨r, r, hr, hq, le_rfl⟩
  · rintro ⟨r, q, hr, hq, hle⟩
    rcases hle.lt_or_eq with hlt | rfl
    · exact Or.inl ⟨r, q, hr, hq, hlt⟩
    · exact Or.inr ⟨r, hr, hq⟩

theorem isUndefined_eq_false_iff {a : Float} :
    Scalar.isUndefined a = false ↔ ∃ r, rank a.toModel.unpack = some r := by
  rw [Scalar.isUndefined, Bool.not_eq_false', beq_iff]
  exact exists_congr fun r ↦ and_self_iff

theorem isUndefined_iff {a : Float} :
    Scalar.isUndefined a = true ↔ a.toModel.unpack = .notANumber := by
  rw [← not_iff_not, Bool.not_eq_true, isUndefined_eq_false_iff]
  rcases a.toModel.unpack with (_ | _) | _ | _ | ⟨_ | _, m, e, hm⟩
  case notANumber => exact iff_of_false nofun (not_not_intro rfl)
  all_goals exact iff_of_true ⟨_, rfl⟩ nofun

theorem isUndefined_of_isFinite {a : Float} (h : Scalar.isFinite a = true) :
    Scalar.isUndefined a = false := by
  refine Bool.eq_false_iff.mpr fun hundefined ↦ ?_
  have hfinite : a.toModel.unpack.isFinite = true := h
  rw [isUndefined_iff.mp hundefined] at hfinite
  cases hfinite

/-! ## The order of defined numbers

With both operands defined the usual lemmas hold. Those that need no such condition say so by not
having it: a number that is at most another one is defined, and so is the other. -/

theorem le_refl_of_defined {a : Float} (ha : Scalar.isUndefined a = false) : a ≤ a := by
  obtain ⟨r, hr⟩ := isUndefined_eq_false_iff.mp ha
  exact le_iff_rank.mpr ⟨r, r, hr, hr, le_rfl⟩

theorem le_of_lt {a b : Float} (h : a < b) : a ≤ b := le_iff.mpr (Or.inl h)

theorem le_trans {a b c : Float} (hab : a ≤ b) (hbc : b ≤ c) : a ≤ c := by
  obtain ⟨r, q, hr, hq, hrq⟩ := le_iff_rank.mp hab
  obtain ⟨q', t, hq', ht, hqt⟩ := le_iff_rank.mp hbc
  rw [hq, Option.some_inj] at hq'
  exact le_iff_rank.mpr ⟨r, t, hr, ht, hrq.trans (hq' ▸ hqt)⟩

theorem lt_of_le_of_lt {a b c : Float} (hab : a ≤ b) (hbc : b < c) : a < c := by
  obtain ⟨r, q, hr, hq, hrq⟩ := le_iff_rank.mp hab
  obtain ⟨q', t, hq', ht, hqt⟩ := lt_iff.mp hbc
  rw [hq, Option.some_inj] at hq'
  exact lt_iff.mpr ⟨r, t, hr, ht, hrq.trans_lt (hq' ▸ hqt)⟩

theorem not_le_of_lt {a b : Float} (h : a < b) : ¬b ≤ a := fun hle ↦
  lt_irrefl b (lt_of_le_of_lt hle h)

/-- Of two defined numbers one is at most the other. -/
theorem not_lt_iff {a b : Float} (ha : Scalar.isUndefined a = false)
    (hb : Scalar.isUndefined b = false) : ¬b < a ↔ a ≤ b := by
  obtain ⟨r, hr⟩ := isUndefined_eq_false_iff.mp ha
  obtain ⟨q, hq⟩ := isUndefined_eq_false_iff.mp hb
  rw [lt_iff, le_iff_rank]
  simp only [hr, hq, Option.some.injEq, exists_and_left, exists_eq_left', not_lt]

theorem defined_of_le {a b : Float} (h : a ≤ b) :
    Scalar.isUndefined a = false ∧ Scalar.isUndefined b = false := by
  obtain ⟨r, q, hr, hq, -⟩ := le_iff_rank.mp h
  exact ⟨isUndefined_eq_false_iff.mpr ⟨r, hr⟩, isUndefined_eq_false_iff.mpr ⟨q, hq⟩⟩

theorem max_of_undefined (a : Float) {b : Float} (hb : Scalar.isUndefined b = true) :
    Scalar.max a b = a := by
  have hlt : ¬b < a := fun h ↦ by
    rw [(defined_of_le (le_of_lt h)).1] at hb
    cases hb
  have hne : ¬(b == b) = true := by rwa [Bool.not_eq_true, ← Bool.not_eq_true']
  rw [Scalar.max, if_neg hlt, if_neg hne]

theorem max_of_defined {a b : Float} (hb : Scalar.isUndefined b = false) :
    Scalar.max a b = if b < a then a else b := by
  have heq : (b == b) = true := by rwa [Scalar.isUndefined, Bool.not_eq_false'] at hb
  rw [Scalar.max, if_pos heq]

theorem max_of_undefined_left {a b : Float} (ha : Scalar.isUndefined a = true)
    (hb : Scalar.isUndefined b = false) : Scalar.max a b = b := by
  rw [max_of_defined hb, if_neg]
  intro hlt
  rw [(defined_of_le (le_of_lt hlt)).2] at ha
  cases ha

theorem min_of_defined {a b : Float} (hb : Scalar.isUndefined b = false) :
    Scalar.min a b = if a < b then a else b := by
  have heq : (b == b) = true := by rwa [Scalar.isUndefined, Bool.not_eq_false'] at hb
  rw [Scalar.min, if_pos heq]

section Defined

variable {a b : Float} (ha : Scalar.isUndefined a = false) (hb : Scalar.isUndefined b = false)

include ha hb

theorem max_le_iff {t : Float} : Scalar.max a b ≤ t ↔ a ≤ t ∧ b ≤ t := by
  rw [max_of_defined hb]
  split
  · rename_i hlt
    exact ⟨fun h ↦ ⟨h, le_trans (le_of_lt hlt) h⟩, And.left⟩
  · rename_i hle
    exact ⟨fun h ↦ ⟨le_trans ((not_lt_iff ha hb).mp hle) h, h⟩, And.right⟩

theorem le_min_iff {t : Float} : t ≤ Scalar.min a b ↔ t ≤ a ∧ t ≤ b := by
  rw [min_of_defined hb]
  split
  · rename_i hlt
    exact ⟨fun h ↦ ⟨h, le_trans h (le_of_lt hlt)⟩, And.left⟩
  · rename_i hle
    exact ⟨fun h ↦ ⟨le_trans h ((not_lt_iff hb ha).mp hle), h⟩, And.right⟩

theorem isUndefined_max : Scalar.isUndefined (Scalar.max a b) = false := by
  rw [max_of_defined hb]
  split
  · exact ha
  · exact hb

theorem isUndefined_min : Scalar.isUndefined (Scalar.min a b) = false := by
  rw [min_of_defined hb]
  split
  · exact ha
  · exact hb

theorem le_max_right : b ≤ Scalar.max a b :=
  ((max_le_iff ha hb).mp (le_refl_of_defined (isUndefined_max ha hb))).2

theorem min_le_right : Scalar.min a b ≤ b :=
  ((le_min_iff ha hb).mp (le_refl_of_defined (isUndefined_min ha hb))).2

end Defined

/-- The largest value of a list is within a limit if the defined ones are. -/
theorem foldl_max_le_iff {values : List Float} {a t : Float} (ha : Scalar.isUndefined a = false) :
    values.foldl Scalar.max a ≤ t ↔
      a ≤ t ∧ ∀ v ∈ values, Scalar.isUndefined v = false → v ≤ t := by
  induction values generalizing a with
  | nil => exact (and_iff_left fun _ h ↦ absurd h List.not_mem_nil).symm
  | cons v values ih =>
    rw [List.foldl_cons, List.forall_mem_cons]
    rcases hv : Scalar.isUndefined v
    · rw [ih (isUndefined_max ha hv), max_le_iff ha hv, and_assoc]
      exact and_congr_right' (and_congr_left' ⟨fun h _ ↦ h, fun h ↦ h rfl⟩)
    · rw [max_of_undefined a hv, ih ha]
      exact and_congr_right' (and_iff_right nofun).symm

end FloatOrder

end NonlinearProgram
