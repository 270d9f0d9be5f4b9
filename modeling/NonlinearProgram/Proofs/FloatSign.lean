import Mathlib.Algebra.GroupWithZero.Nat
import NonlinearProgram.Proofs.FloatOrder

/-!
# Signs of floating-point numbers

Negation and magnitude are defined on decoded numbers, and the result is encoded again. `decode`
reads a number off its sign and the two fields of its encoding, and `unpack_pack_decode` says that
encoding such a number and decoding it changes nothing. So negation and magnitude act on the sign
alone (`unpack_neg`, `unpack_abs`), and comparisons turn around under negation, exactly and
whatever the operands are.
-/

namespace NonlinearProgram

namespace FloatOrder

open Float.Model (Format UnpackedFloat)
open Float.Model.UnpackedFloat

/-! ## Encoding and decoding

Encoding writes a number into the two fields of the format. A number with too many digits for them,
or too large an exponent, is not what is read off them again; a number that was decoded is, and all
operands here were. -/

theorem toNat_implicit (m : BitVec 52) : (1#1 ++ m).toNat = 2 ^ 52 + m.toNat := by
  rw [BitVec.toNat_append, ← Nat.shiftLeft_add_eq_or_of_lt m.isLt]
  rfl

/-- The number with a sign and the two fields of its encoding. -/
def decode (sign : Sign) (exponent : BitVec 11) (mantissa : BitVec 52) : UnpackedFloat :=
  if exponent = -1#11 then
    if mantissa = 0#52 then .infinity sign else .notANumber
  else if exponent = 0#11 then
    if h : mantissa = 0#52 then .zero sign
    else .finite sign mantissa.toNat (-1074) (BitVec.toNat_pos_of_ne_zero h)
  else .finite sign (1#1 ++ mantissa).toNat (exponent.toNat - 1075)
    (by rw [toNat_implicit]; omega)

theorem sign_packComponents (sign : Sign) (exponent : BitVec 11) (mantissa : BitVec 52) :
    Sign.ofBitVec (unpackSign (packComponents .binary64 sign exponent mantissa)) = sign := by
  show Sign.ofBitVec ((sign.toBitVec ++ exponent ++ mantissa).extractLsb' 63 1) = sign
  rw [BitVec.extractLsb'_append_eq_of_le (by decide),
    BitVec.extractLsb'_append_eq_of_le (by decide)]
  cases sign <;> rfl

theorem unpack_eq_decode (b : BitVec Format.binary64.numBits) :
    UnpackedFloat.unpack .binary64 b
      = decode (.ofBitVec (unpackSign b)) (unpackExponent b) (unpackMantissa b) := by
  have hunpack : UnpackedFloat.unpack .binary64 b
      = if unpackExponent b = -1#11 then
          if unpackMantissa b = 0#52 then .infinity (.ofBitVec (unpackSign b)) else .notANumber
        else if unpackExponent b = 0#11 then
          if h : unpackMantissa b = 0#52 then .zero (.ofBitVec (unpackSign b))
          else .finite (.ofBitVec (unpackSign b)) (unpackMantissa b).toNat
            ((unpackExponent b).toNat - 1075 + 1) (BitVec.toNat_pos_of_ne_zero h)
        else .finite (.ofBitVec (unpackSign b)) (1#1 ++ unpackMantissa b).toNat
          ((unpackExponent b).toNat - 1075) (by rw [toNat_implicit]; omega) := rfl
  rw [hunpack, decode]
  by_cases hzero : unpackExponent b = 0#11
  · rw [hzero]
    rfl
  · rw [if_neg hzero, if_neg hzero]

/-- The encoding of a finite number. The first field counts the exponents from the smallest one, and
what does not fit into it is infinite; a number that lacks digits has the field of zero. -/
theorem pack_finite (sign : Sign) {m : ℕ} {e : ℤ} (hm : 0 < m) :
    UnpackedFloat.pack .binary64 (.finite sign m e hm)
      = if 2 ^ 11 ≤ (e + 1075).toNat + 1 then packComponents .binary64 sign (-1#11) 0#52
        else if m.log2 + 1 = 53 then
          packComponents .binary64 sign (BitVec.ofNat 11 (e + 1075).toNat) (BitVec.ofNat 52 m)
        else packComponents .binary64 sign 0#11 (BitVec.ofNat 52 m) := by
  have hbias : e + 1075 = e + (1023 : ℕ) + (52 : ℕ) := by omega
  rw [hbias]
  rfl

/-- A decoded number other than the undefined one is encoded in its own fields. -/
theorem pack_decode {sign : Sign} {exponent : BitVec 11} {mantissa : BitVec 52}
    (h : exponent = -1#11 → mantissa = 0#52) :
    UnpackedFloat.pack .binary64 (decode sign exponent mantissa)
      = packComponents .binary64 sign exponent mantissa := by
  by_cases hinf : exponent = -1#11
  · rw [decode, if_pos hinf, if_pos (h hinf), h hinf, hinf]
    rfl
  by_cases hzero : exponent = 0#11
  · rw [decode, if_neg hinf, if_pos hzero]
    by_cases hm : mantissa = 0#52
    · rw [dif_pos hm, hm, hzero]
      rfl
    · have hlog : mantissa.toNat.log2 < 52 :=
        (Nat.log2_lt (BitVec.toNat_pos_of_ne_zero hm).ne').mpr mantissa.isLt
      rw [dif_neg hm, pack_finite, if_neg (by decide), if_neg (by omega), hzero,
        BitVec.ofNat_toNat, BitVec.setWidth_eq]
  · have hmax : exponent.toNat < 2047 := by
      have hne : exponent.toNat ≠ 2047 := fun h ↦ hinf (BitVec.eq_of_toNat_eq h)
      have := exponent.isLt
      omega
    have hlog : (1#1 ++ mantissa).toNat.log2 = 52 := by
      have hm := mantissa.isLt
      rw [toNat_implicit, Nat.log2_eq_iff (by omega)]
      omega
    have hbiased : ((exponent.toNat : ℤ) - 1075 + 1075).toNat = exponent.toNat := by omega
    have hcut : BitVec.ofNat 52 (1#1 ++ mantissa).toNat = mantissa := by
      refine BitVec.eq_of_toNat_eq ?_
      rw [BitVec.toNat_ofNat, toNat_implicit, Nat.add_mod_left, Nat.mod_eq_of_lt mantissa.isLt]
    rw [decode, if_neg hinf, if_neg hzero, pack_finite, hbiased, if_neg (by omega),
      if_pos (by omega), hcut, BitVec.ofNat_toNat, BitVec.setWidth_eq]

theorem unpack_packComponents (sign : Sign) (exponent : BitVec 11) (mantissa : BitVec 52) :
    UnpackedFloat.unpack .binary64 (packComponents .binary64 sign exponent mantissa)
      = decode sign exponent mantissa := by
  rw [unpack_eq_decode, sign_packComponents, unpackExponent_packComponents,
    unpackMantissa_packComponents]

theorem unpack_pack_decode (sign : Sign) (exponent : BitVec 11) (mantissa : BitVec 52) :
    UnpackedFloat.unpack .binary64 (UnpackedFloat.pack .binary64 (decode sign exponent mantissa))
      = decode sign exponent mantissa := by
  by_cases h : exponent = -1#11 → mantissa = 0#52
  · rw [pack_decode h, unpack_packComponents]
  · obtain ⟨rfl, hm⟩ := Classical.not_imp.mp h
    rw [decode, if_pos rfl, if_neg hm]
    rfl

/-- What a number stands for is what its fields encode. -/
theorem exists_decode (a : Float) :
    ∃ sign exponent mantissa, a.toModel.unpack = decode sign exponent mantissa :=
  ⟨_, _, _, unpack_eq_decode a.toModel.toBits.toBitVec⟩

/-! ## Negation and magnitude -/

/-- What acts on the sign of a number alone acts on the sign that is read. -/
theorem map_decode {f : UnpackedFloat → UnpackedFloat} {g : Sign → Sign}
    (hinfinity : ∀ s, f (.infinity s) = .infinity (g s)) (hnan : f .notANumber = .notANumber)
    (hzero : ∀ s, f (.zero s) = .zero (g s))
    (hfinite : ∀ s m e hm, f (.finite s m e hm) = .finite (g s) m e hm)
    (sign : Sign) (exponent : BitVec 11) (mantissa : BitVec 52) :
    f (decode sign exponent mantissa) = decode (g sign) exponent mantissa := by
  rw [decode, decode]
  by_cases hinf : exponent = -1#11
  · rw [if_pos hinf, if_pos hinf]
    by_cases hm : mantissa = 0#52
    · rw [if_pos hm, if_pos hm, hinfinity]
    · rw [if_neg hm, if_neg hm, hnan]
  rw [if_neg hinf, if_neg hinf]
  by_cases hexponent : exponent = 0#11
  · rw [if_pos hexponent, if_pos hexponent]
    by_cases hm : mantissa = 0#52
    · rw [dif_pos hm, dif_pos hm, hzero]
    · rw [dif_neg hm, dif_neg hm, hfinite]
  · rw [if_neg hexponent, if_neg hexponent, hfinite]

theorem neg_decode (sign : Sign) (exponent : BitVec 11) (mantissa : BitVec 52) :
    (decode sign exponent mantissa).neg = decode (-sign) exponent mantissa :=
  map_decode (fun _ ↦ rfl) rfl (fun _ ↦ rfl) (fun _ _ _ _ ↦ rfl) sign exponent mantissa

theorem abs_decode (sign : Sign) (exponent : BitVec 11) (mantissa : BitVec 52) :
    (decode sign exponent mantissa).abs = decode .positive exponent mantissa :=
  map_decode (g := fun _ ↦ .positive) (fun _ ↦ rfl) rfl (fun _ ↦ rfl) (fun _ _ _ _ ↦ rfl) sign
    exponent mantissa

theorem unpack_neg (a : Float) : (-a).toModel.unpack = a.toModel.unpack.neg := by
  obtain ⟨sign, exponent, mantissa, ha⟩ := exists_decode a
  have hneg : (-a).toModel.unpack
      = UnpackedFloat.unpack .binary64 (UnpackedFloat.pack .binary64 a.toModel.unpack.neg) := rfl
  rw [hneg, ha, neg_decode, unpack_pack_decode]

theorem unpack_abs (a : Float) : a.abs.toModel.unpack = a.toModel.unpack.abs := by
  obtain ⟨sign, exponent, mantissa, ha⟩ := exists_decode a
  have habs : a.abs.toModel.unpack
      = UnpackedFloat.unpack .binary64 (UnpackedFloat.pack .binary64 a.toModel.unpack.abs) := rfl
  rw [habs, ha, abs_decode, unpack_pack_decode]

theorem isUndefined_neg (a : Float) : Scalar.isUndefined (-a) = Scalar.isUndefined a := by
  rw [Bool.eq_iff_iff, isUndefined_iff, isUndefined_iff, unpack_neg]
  cases a.toModel.unpack with
  | notANumber => exact Iff.rfl
  | _ => exact iff_of_false nofun nofun

theorem isUndefined_abs (a : Float) : Scalar.isUndefined a.abs = Scalar.isUndefined a := by
  rw [Bool.eq_iff_iff, isUndefined_iff, isUndefined_iff, unpack_abs]
  cases a.toModel.unpack with
  | notANumber => exact Iff.rfl
  | _ => exact iff_of_false nofun nofun

/-! ## Comparisons

A comparison looks at the signs first, and at the magnitudes where the signs are equal. Under
negation the two mixed cases are exchanged, and among equal signs the order of the magnitudes is
kept and its meaning turns around. -/

theorem unpacked_neg_compare (a b : UnpackedFloat) : a.neg.compare b = b.neg.compare a := by
  have hturn : ∀ (m k : ℕ) (e f : ℤ), (compare e f).then (compare m k)
      = ((compare f e).then (compare k m)).swap := by
    intro m k e f
    rw [Ordering.swap_then, ← Std.OrientedOrd.eq_swap, ← Std.OrientedOrd.eq_swap]
  rcases a with (_ | _) | _ | (_ | _) | ⟨_ | _, m, e, hm⟩ <;>
    rcases b with (_ | _) | _ | (_ | _) | ⟨_ | _, k, f, hk⟩ <;> try rfl
  · exact congrArg some (hturn m k e f)
  · exact congrArg some (hturn k m f e).symm

theorem unpacked_abs_lt (a b : UnpackedFloat) : a.abs.lt b = (a.lt b && a.neg.lt b) := by
  rcases a with (_ | _) | _ | (_ | _) | ⟨_ | _, m, e, hm⟩ <;>
    rcases b with (_ | _) | _ | (_ | _) | ⟨_ | _, k, f, hk⟩ <;> try rfl
  · exact (Bool.and_false _).symm
  · exact (Bool.and_true _).symm

theorem neg_lt_iff {a b : Float} : -a < b ↔ -b < a := by
  rw [lt_iff, ← unpacked_lt_iff, lt_iff, ← unpacked_lt_iff, unpack_neg, unpack_neg]
  exact iff_of_eq (congrArg (fun o ↦ (o == some Ordering.lt) = true) (unpacked_neg_compare _ _))

theorem neg_le_iff {a b : Float} : -a ≤ b ↔ -b ≤ a := by
  rw [le_iff, le_iff, neg_lt_iff]
  refine or_congr_right ?_
  show (-a).toModel.unpack.beq b.toModel.unpack = true
    ↔ (-b).toModel.unpack.beq a.toModel.unpack = true
  rw [unpack_neg, unpack_neg]
  exact iff_of_eq (congrArg (fun o ↦ (o == some Ordering.eq) = true) (unpacked_neg_compare _ _))

theorem abs_lt_iff {a b : Float} : a.abs < b ↔ -b < a ∧ a < b := by
  rw [neg_lt_iff, lt_iff, ← unpacked_lt_iff, lt_iff, ← unpacked_lt_iff, lt_iff,
    ← unpacked_lt_iff, unpack_abs, unpack_neg, unpacked_abs_lt, Bool.and_eq_true, and_comm]

end FloatOrder

end NonlinearProgram
