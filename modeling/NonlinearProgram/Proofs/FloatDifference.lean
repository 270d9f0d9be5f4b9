import NonlinearProgram.Proofs.FloatSign

/-!
# The sign of a difference

A difference of floating-point numbers is rounded, but its sign is exact. Numbers are multiples of
the smallest one, and so are their differences, while rounding takes no number away from its side of
zero unless it is smaller than that one. So a difference is negative where the first number is less
than the second (`onSide_sub`), and multiplication by one or minus one keeps or turns its sign
(`onSide_mul_of_unit`).
-/

namespace NonlinearProgram

namespace FloatOrder

open Float.Model (Format UnpackedFloat totalExponent)
open Float.Model.UnpackedFloat

/-- Whether a number is beyond zero on the side of a sign and, if it is finite, has no more digits
than the format and a unit that is not below the smallest number. -/
def OnSide (sign : Sign) : UnpackedFloat → Prop
  | .infinity s => s = sign
  | .finite s m e _ => s = sign ∧ m < 2 ^ 53 ∧ -1074 ≤ e
  | _ => False

/-- What the two fields of an encoding can stand for. A finite number has as many digits as its
exponent allows. -/
theorem decode_cases (sign : Sign) (exponent : BitVec 11) (mantissa : BitVec 52) :
    (decode sign exponent mantissa = .infinity sign) ∨
      (exponent = -1#11 ∧ mantissa ≠ 0#52 ∧ decode sign exponent mantissa = .notANumber) ∨
      (exponent = 0#11 ∧ mantissa = 0#52 ∧ decode sign exponent mantissa = .zero sign) ∨
      ∃ m e hm, decode sign exponent mantissa = .finite sign m e hm ∧
        m < 2 ^ 53 ∧ -1074 ≤ e ∧ (e = -1074 ∨ 2 ^ 52 ≤ m) := by
  have hlt := mantissa.isLt
  by_cases hinf : exponent = -1#11
  · by_cases hm : mantissa = 0#52
    · refine .inl ?_
      rw [decode, if_pos hinf, if_pos hm]
    · refine .inr (.inl ⟨hinf, hm, ?_⟩)
      rw [decode, if_pos hinf, if_neg hm]
  refine .inr (.inr ?_)
  by_cases hzero : exponent = 0#11
  · by_cases hm : mantissa = 0#52
    · refine .inl ⟨hzero, hm, ?_⟩
      rw [decode, if_neg hinf, if_pos hzero, dif_pos hm]
    · refine .inr ⟨mantissa.toNat, -1074, BitVec.toNat_pos_of_ne_zero hm, ?_, by omega, le_rfl,
        .inl rfl⟩
      rw [decode, if_neg hinf, if_pos hzero, dif_neg hm]
  · have hpos : exponent.toNat ≠ 0 := fun h ↦ hzero (BitVec.eq_of_toNat_eq h)
    have hnat := toNat_implicit mantissa
    refine .inr ⟨(1#1 ++ mantissa).toNat, exponent.toNat - 1075, by omega, ?_, by omega, by omega,
      .inr (by omega)⟩
    rw [decode, if_neg hinf, if_neg hzero]

theorem of_decode_eq_finite {sign s : Sign} {exponent : BitVec 11} {mantissa : BitVec 52} {m : ℕ}
    {e : ℤ} {hm : 0 < m} (h : decode sign exponent mantissa = .finite s m e hm) :
    m < 2 ^ 53 ∧ -1074 ≤ e ∧ (e = -1074 ∨ 2 ^ 52 ≤ m) := by
  rcases decode_cases sign exponent mantissa with
    hcase | ⟨-, -, hcase⟩ | ⟨-, -, hcase⟩ | ⟨_, _, _, hcase, hdigits⟩
  all_goals
    rw [h] at hcase
    cases hcase
  exact hdigits

theorem onSide_decode {sign : Sign} {exponent : BitVec 11} {mantissa : BitVec 52}
    (hinf : exponent = -1#11 → mantissa = 0#52) (hzero : exponent = 0#11 → mantissa ≠ 0#52) :
    OnSide sign (decode sign exponent mantissa) := by
  rcases decode_cases sign exponent mantissa with
    h | ⟨he, hm, -⟩ | ⟨he, hm, -⟩ | ⟨_, _, _, h, hlt, hle, -⟩
  · rw [h]
    rfl
  · exact absurd (hinf he) hm
  · exact absurd hm (hzero he)
  · rw [h]
    exact ⟨rfl, hlt, hle⟩

/-! ## Rounding

A result is rounded in three steps: its digits are shifted to the exponent of the format, the rest
decides whether to round up, and a mantissa that has become too long is shifted once more. None of
them takes a number that reaches the smallest one to zero, or to the other side. -/

theorem mantissa_shiftRight (em : ExtendedMantissa) (k : ℕ) :
    (em >>> k).mantissa = em.mantissa / 2 ^ k := by
  induction k generalizing em with
  | zero => exact (Nat.div_one _).symm
  | succ k ih =>
    show (em >>> k).mantissa / 2 = _
    rw [ih, Nat.div_div_eq_div_mul, Nat.pow_succ]

theorem le_roundedMantissa (em : ExtendedMantissa) : em.mantissa ≤ em.roundedMantissa := by
  rcases em with ⟨m, _ | _, _ | _⟩
  · exact le_rfl
  · exact le_rfl
  · exact Nat.le_add_right _ _
  · exact Nat.le_succ _

theorem shiftToTargetExponent_bounds {m : ℕ} {e : ℤ} (accuracy : Accuracy) (hm : 0 < m)
    (he : -1074 ≤ m.log2 + e) :
    0 < (shiftToTargetExponent .binary64 m e accuracy).1.mantissa ∧
      (shiftToTargetExponent .binary64 m e accuracy).1.mantissa < 2 ^ 53 ∧
      -1074 ≤ (shiftToTargetExponent .binary64 m e accuracy).2 := by
  obtain ⟨k, hk⟩ : ∃ k, k = (Format.binary64.targetExponent (totalExponent m e) - e).toNat :=
    ⟨_, rfl⟩
  have htarget : Format.binary64.targetExponent (totalExponent m e)
      = max (m.log2 + 1 + e - 53) (-1074) := rfl
  have hmantissa : (shiftToTargetExponent .binary64 m e accuracy).1.mantissa = m / 2 ^ k := by
    rw [shiftToTargetExponent, shiftToExponent, ← hk, mantissa_shiftRight]
    rcases accuracy with _ | _ | _ | _ <;> rfl
  have hexponent : (shiftToTargetExponent .binary64 m e accuracy).2 = e + k := by
    rw [hk]
    rfl
  rw [htarget] at hk
  rw [hmantissa, hexponent]
  have hlow : 2 ^ k ≤ m := (Nat.le_log2 hm.ne').mp (by omega)
  have hhigh : m < 2 ^ (53 + k) := (Nat.log2_lt hm.ne').mp (by omega)
  refine ⟨Nat.div_pos hlow (Nat.two_pow_pos k), ?_, by omega⟩
  rwa [Nat.div_lt_iff_lt_mul (Nat.two_pow_pos k), ← Nat.pow_add]

/-- A number that reaches the smallest one is on its side after rounding. -/
theorem onSide_roundWithAccuracy (sign : Sign) {m : ℕ} {e : ℤ} (accuracy : Accuracy) (hm : 0 < m)
    (he : -1074 ≤ m.log2 + e) : OnSide sign (roundWithAccuracy .binary64 sign m e accuracy) := by
  obtain ⟨hpos, -, hexponent⟩ := shiftToTargetExponent_bounds accuracy hm he
  rw [roundWithAccuracy]
  generalize shiftToTargetExponent .binary64 m e accuracy = first at *
  obtain ⟨em, e₁⟩ := first
  have hrounded : 0 < em.roundedMantissa := hpos.trans_le (le_roundedMantissa em)
  obtain ⟨hpos₂, hlt₂, hexponent₂⟩ := shiftToTargetExponent_bounds (e := e₁) .exact hrounded
    (hexponent.trans (by omega))
  exact Eq.mpr (congrArg (OnSide sign) (dif_neg hpos₂.ne')) ⟨rfl, hlt₂, hexponent₂⟩

theorem onSide_round (sign : Sign) {m : ℕ} {e : ℤ} (hm : 0 < m) (he : -1074 ≤ e) :
    OnSide sign (UnpackedFloat.round .binary64 sign m e) := by
  have htarget : Format.binary64.targetExponent (totalExponent m e)
      = max (m.log2 + 1 + e - 53) (-1074) := rfl
  have hpos : ∀ k, 0 < m <<< k := fun k ↦ by
    rw [Nat.shiftLeft_eq]
    exact Nat.mul_pos hm (Nat.two_pow_pos k)
  exact onSide_roundWithAccuracy sign .exact (hpos _) (by rw [htarget]; omega)

theorem onSide_normalize {v e : ℤ} (he : -1074 ≤ e) (zero : Sign) :
    (v < 0 → OnSide .negative (UnpackedFloat.normalize .binary64 v e zero)) ∧
      (0 < v → OnSide .positive (UnpackedFloat.normalize .binary64 v e zero)) := by
  constructor
  · intro hv
    rw [UnpackedFloat.normalize, compare_lt_iff_lt.mpr hv]
    exact onSide_round .negative (by omega) he
  · intro hv
    rw [UnpackedFloat.normalize, compare_gt_iff_gt.mpr hv]
    exact onSide_round .positive (by omega) he

/-- A number on a side is still there after encoding. -/
theorem OnSide.unpack_pack {sign : Sign} {a : UnpackedFloat} (ha : OnSide sign a) :
    OnSide sign (UnpackedFloat.unpack .binary64 (UnpackedFloat.pack .binary64 a)) := by
  rcases a with s | _ | s | ⟨s, m, e, hm⟩
  · obtain rfl : s = sign := ha
    rw [show UnpackedFloat.pack .binary64 (.infinity s) = packComponents .binary64 s (-1#11) 0#52
      from rfl, unpack_packComponents]
    rfl
  · cases ha
  · cases ha
  obtain ⟨rfl, hlt, he⟩ := ha
  rw [pack_finite]
  generalize hbiased : (e + 1075).toNat = biased
  split_ifs with hover hnormal
  · rw [unpack_packComponents]
    rfl
  · have hfield : (BitVec.ofNat 11 biased).toNat = biased := by
      rw [BitVec.toNat_ofNat, Nat.mod_eq_of_lt (by omega)]
    have hinf : BitVec.ofNat 11 biased ≠ -1#11 := fun h ↦ by
      rw [h] at hfield
      have : biased = 2047 := hfield.symm
      omega
    have hzero : BitVec.ofNat 11 biased ≠ 0#11 := fun h ↦ by
      rw [h] at hfield
      have : biased = 0 := hfield.symm
      omega
    rw [unpack_packComponents]
    exact onSide_decode (absurd · hinf) (absurd · hzero)
  · have hsmall : m < 2 ^ 52 := by
      have := (Nat.log2_lt hm.ne').mpr hlt
      exact (Nat.log2_lt hm.ne').mp (by omega)
    have hfield : BitVec.ofNat 52 m ≠ 0#52 := fun h ↦ by
      have := congrArg BitVec.toNat h
      rw [BitVec.toNat_ofNat, Nat.mod_eq_of_lt hsmall] at this
      exact hm.ne' this
    rw [unpack_packComponents]
    exact onSide_decode (absurd · (by decide)) fun _ ↦ hfield

/-! ## Differences

Both numbers are brought to the smaller of the two exponents, so that their difference is one of
integers. These compare as the numbers do, because a larger exponent comes with all the digits of
the format. -/

/-- Of two encoded numbers the one with the smaller exponent, or with fewer digits, is smaller. -/
theorem shiftLeft_lt {m₁ m₂ : ℕ} {e₁ e₂ : ℤ} (h₁ : m₁ < 2 ^ 53) (he : -1074 ≤ e₁)
    (h₂ : e₂ = -1074 ∨ 2 ^ 52 ≤ m₂) (h : e₁ < e₂ ∨ e₁ = e₂ ∧ m₁ < m₂) :
    m₁ <<< (e₁ - min e₁ e₂).toNat < m₂ <<< (e₂ - min e₁ e₂).toNat := by
  rcases h with h | ⟨rfl, h⟩
  · obtain ⟨k, hk⟩ : ∃ k : ℕ, (e₂ - min e₁ e₂).toNat = k + 1 :=
      ⟨(e₂ - min e₁ e₂).toNat - 1, by omega⟩
    have hzero : (e₁ - min e₁ e₂).toNat = 0 := by omega
    have hm : 2 ^ 52 ≤ m₂ := h₂.resolve_left (by omega)
    rw [hzero, hk, Nat.shiftLeft_zero, Nat.shiftLeft_eq]
    calc m₁ < 2 ^ 52 * 2 ^ 1 := h₁
      _ ≤ m₂ * 2 ^ (k + 1) :=
        Nat.mul_le_mul hm (Nat.pow_le_pow_right (by decide) (Nat.le_add_left 1 k))
  · rwa [min_self, Int.sub_self, Int.toNat_zero, Nat.shiftLeft_zero, Nat.shiftLeft_zero]

section Finite

variable {a b : Float} {s₁ s₂ : Sign} {m₁ m₂ : ℕ} {e₁ e₂ : ℤ} {h₁ : 0 < m₁} {h₂ : 0 < m₂}
  (ha : a.toModel.unpack = .finite s₁ m₁ e₁ h₁) (hb : b.toModel.unpack = .finite s₂ m₂ e₂ h₂)

section Single

include ha

theorem digits_of_finite : m₁ < 2 ^ 53 ∧ -1074 ≤ e₁ ∧ (e₁ = -1074 ∨ 2 ^ 52 ≤ m₁) := by
  obtain ⟨_, _, _, hdecode⟩ := exists_decode a
  exact of_decode_eq_finite (hdecode.symm.trans ha)

theorem onSide_of_finite (sign : Sign) : OnSide sign (.finite sign m₁ e₁ h₁) :=
  ⟨rfl, (digits_of_finite ha).1, (digits_of_finite ha).2.1⟩

end Single

include ha hb

theorem apply_shiftLeft_lt (hab : a < b) :
    s₁.apply (m₁ <<< (e₁ - min e₁ e₂).toNat : ℕ)
      < s₂.apply (m₂ <<< (e₂ - min e₁ e₂).toNat : ℕ) := by
  obtain ⟨hlt₁, hle₁, hor₁⟩ := digits_of_finite ha
  obtain ⟨hlt₂, hle₂, hor₂⟩ := digits_of_finite hb
  have hpos : ∀ {m : ℕ} k, 0 < m → 0 < m <<< k := fun k hm ↦ by
    rw [Nat.shiftLeft_eq]
    exact Nat.mul_pos hm (Nat.two_pow_pos k)
  rw [lt_iff, ha, hb] at hab
  obtain ⟨r, q, hr, hq, hrq⟩ := hab
  cases s₁ <;> cases s₂ <;> cases hr <;> cases hq <;>
    simp only [Prod.Lex.toLex_lt_toLex] at hrq
  · have h : e₂ < e₁ ∨ e₂ = e₁ ∧ m₂ < m₁ := by omega
    have := shiftLeft_lt hlt₂ hle₂ hor₁ h
    rw [min_comm] at this
    exact Int.neg_lt_neg (Int.ofNat_lt.mpr this)
  · have hneg := hpos (e₁ - min e₁ e₂).toNat h₁
    have hpos := hpos (e₂ - min e₁ e₂).toNat h₂
    simp only [Sign.apply]
    omega
  · omega
  · have h : e₁ < e₂ ∨ e₁ = e₂ ∧ m₁ < m₂ := by omega
    exact Int.ofNat_lt.mpr (shiftLeft_lt hlt₁ hle₁ hor₂ h)

theorem onSide_sub_of_finite (hab : a < b) :
    OnSide .negative
        (UnpackedFloat.sub .binary64 (.finite s₁ m₁ e₁ h₁) (.finite s₂ m₂ e₂ h₂)) ∧
      OnSide .positive
        (UnpackedFloat.sub .binary64 (.finite s₂ m₂ e₂ h₂) (.finite s₁ m₁ e₁ h₁)) := by
  have hmin : -1074 ≤ min e₁ e₂ := le_min (digits_of_finite ha).2.1 (digits_of_finite hb).2.1
  have hlt := apply_shiftLeft_lt ha hb hab
  refine ⟨(onSide_normalize hmin .positive).1 (Int.sub_neg_of_lt hlt), ?_⟩
  rw [min_comm] at hmin hlt
  exact (onSide_normalize hmin .positive).2 (Int.sub_pos_of_lt hlt)

end Finite

/-- The sign of a difference is that of the comparison, for infinities too. -/
theorem onSide_sub {a b : Float} (hab : a < b) :
    OnSide .negative (a - b).toModel.unpack ∧ OnSide .positive (b - a).toModel.unpack := by
  suffices h : OnSide .negative (UnpackedFloat.sub .binary64 a.toModel.unpack b.toModel.unpack) ∧
      OnSide .positive (UnpackedFloat.sub .binary64 b.toModel.unpack a.toModel.unpack) from
    ⟨h.1.unpack_pack, h.2.unpack_pack⟩
  obtain ⟨r, q, hr, hq, hrq⟩ := lt_iff.mp hab
  rcases ha : a.toModel.unpack with (_ | _) | _ | _ | ⟨_ | _, m₁, e₁, h₁⟩ <;>
    rcases hb : b.toModel.unpack with (_ | _) | _ | _ | ⟨_ | _, m₂, e₂, h₂⟩ <;>
    rw [ha] at hr <;> rw [hb] at hq
  -- two finite numbers, an infinity, a zero on the right, a zero on the left; else not in order
  all_goals first
    | exact onSide_sub_of_finite ha hb hab
    | exact ⟨rfl, rfl⟩
    | exact ⟨onSide_of_finite ha .negative, onSide_of_finite ha .positive⟩
    | exact ⟨onSide_of_finite hb .negative, onSide_of_finite hb .positive⟩
    | cases hr <;> cases hq <;> simp [Prod.Lex.toLex_lt_toLex] at hrq

/-! ## Signs and comparisons with zero

A number on a side is not zero, so that it compares with zero as its side says. Multiplication by
one, of either sign, multiplies the sides. -/

theorem lt_zero_of_onSide {a : Float} (ha : OnSide .negative a.toModel.unpack) : a < 0.0 := by
  rw [lt_iff, ← unpacked_lt_iff]
  rcases h : a.toModel.unpack with s | _ | s | ⟨s, m, e, hm⟩ <;> rw [h] at ha
  · obtain rfl : s = .negative := ha
    rfl
  · cases ha
  · cases ha
  · obtain rfl : s = .negative := ha.1
    rfl

theorem onSide_mul_of_unit {u a : Float} {s sign : Sign}
    (hu : u.toModel.unpack = .finite s (2 ^ 52) (-52) (by decide))
    (ha : OnSide sign a.toModel.unpack) : OnSide (s * sign) (u * a).toModel.unpack := by
  suffices h : OnSide (s * sign)
      (UnpackedFloat.mul .binary64 u.toModel.unpack a.toModel.unpack) from h.unpack_pack
  rw [hu]
  rcases h : a.toModel.unpack with t | _ | t | ⟨t, m, e, hm⟩ <;> rw [h] at ha
  · obtain rfl : t = sign := ha
    rfl
  · cases ha
  · cases ha
  · obtain ⟨rfl, -, he⟩ := ha
    have hlog : 52 ≤ (2 ^ 52 * m).log2 :=
      (Nat.le_log2 (by omega)).mpr (Nat.le_mul_of_pos_right _ hm)
    exact onSide_roundWithAccuracy (s * t) .exact (by omega) (by omega)

theorem unpack_one :
    (1.0 : Float).toModel.unpack = .finite .positive (2 ^ 52) (-52) (by decide) := rfl

theorem unpack_neg_one :
    (-1.0 : Float).toModel.unpack = .finite .negative (2 ^ 52) (-52) (by decide) := by
  rw [unpack_neg, unpack_one]
  rfl

end FloatOrder

end NonlinearProgram
