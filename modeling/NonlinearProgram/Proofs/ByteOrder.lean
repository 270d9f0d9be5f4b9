import Mathlib.Data.String.Basic
import NonlinearProgram.Table

/-!
# The order of names is the order of their bytes

A table is sorted by the characters of its names. Elsewhere names are compared by the bytes of their
encoding. The two orders are one (`Table.lt_iff_bytes_lt`): a longer encoding has a larger first
byte, and encodings of one length hold the digits of a character, high ones first. So two characters
are in the order of the first byte in which they differ, whatever follows them.
-/

namespace NonlinearProgram

namespace Table

/-- The bytes of the encoding of a name. -/
def bytes (name : String) : List UInt8 := name.toUTF8.data.toList

theorem bytes_eq_flatMap (name : String) :
    bytes name = name.toList.flatMap String.utf8EncodeChar := by
  rw [bytes, String.toUTF8_eq_toByteArray, ← String.utf8Encode_toList, List.utf8Encode,
    List.data_toByteArray]

section Digits

variable {a b : ℕ} {l l' : List UInt8}

theorem cons_lt_cons_of_lt (hb : b < 256) (h : a < b) : UInt8.ofNat a :: l < UInt8.ofNat b :: l' :=
  List.cons_lt_cons_iff.mpr (Or.inl ((UInt8.ofNat_lt_iff_lt (h.trans hb) hb).mpr h))

theorem cons_lt_cons_of_le (hb : b < 256) (hle : a ≤ b) (h : a = b → l < l') :
    UInt8.ofNat a :: l < UInt8.ofNat b :: l' := by
  rcases hle.lt_or_eq with hlt | rfl
  · exact cons_lt_cons_of_lt hb hlt
  · exact List.cons_lt_cons_iff.mpr (Or.inr ⟨rfl, h rfl⟩)

end Digits

/-- Two characters are in the order of their encodings, whatever follows these. -/
theorem utf8EncodeChar_append_lt {c d : Char} (h : c < d) (l l' : List UInt8) :
    String.utf8EncodeChar c ++ l < String.utf8EncodeChar d ++ l' := by
  have hlt : c.val.toNat < d.val.toNat := h
  have hsize : d.val.toNat < 1114112 := by
    rcases d.valid with hd | hd
    · exact hd.trans (by decide)
    · exact hd.2
  rw [String.utf8EncodeChar, String.utf8EncodeChar]
  generalize c.val.toNat = m at hlt
  generalize d.val.toNat = n at hlt hsize
  -- with lengths that differ, or one byte, the first byte decides, and else the first larger digit
  split_ifs <;> first
    | omega
    | exact cons_lt_cons_of_lt (by omega) (by omega)
    | exact cons_lt_cons_of_le (by omega) (by omega) fun _ ↦
        cons_lt_cons_of_lt (by omega) (by omega)
    | exact cons_lt_cons_of_le (by omega) (by omega) fun _ ↦
        cons_lt_cons_of_le (by omega) (by omega) fun _ ↦ cons_lt_cons_of_lt (by omega) (by omega)
    | exact cons_lt_cons_of_le (by omega) (by omega) fun _ ↦
        cons_lt_cons_of_le (by omega) (by omega) fun _ ↦
          cons_lt_cons_of_le (by omega) (by omega) fun _ ↦ cons_lt_cons_of_lt (by omega) (by omega)

theorem flatMap_utf8EncodeChar_lt {cs ds : List Char} (h : cs < ds) :
    cs.flatMap String.utf8EncodeChar < ds.flatMap String.utf8EncodeChar := by
  induction cs generalizing ds with
  | nil =>
    rcases ds with _ | ⟨d, ds⟩
    · exact absurd h (List.lt_irrefl _)
    rw [List.flatMap_nil, List.flatMap_cons]
    rcases hencoded : String.utf8EncodeChar d with _ | ⟨byte, rest⟩
    · exact absurd hencoded String.utf8EncodeChar_ne_nil
    · exact List.nil_lt_cons _ _
  | cons c cs ih =>
    rcases ds with _ | ⟨d, ds⟩
    · exact absurd h (List.not_lt_nil _)
    rw [List.flatMap_cons, List.flatMap_cons]
    rcases List.cons_lt_cons_iff.mp h with hlt | ⟨rfl, hrest⟩
    · exact utf8EncodeChar_append_lt hlt _ _
    · exact List.append_left_lt (ih hrest)

/-- **Names are in the order of their bytes.** -/
theorem lt_iff_bytes_lt (name other : String) : name < other ↔ bytes name < bytes other := by
  have hbytes : ∀ {a b : String}, a < b → bytes a < bytes b := by
    intro a b h
    rw [bytes_eq_flatMap, bytes_eq_flatMap]
    exact flatMap_utf8EncodeChar_lt (String.lt_iff_toList_lt.mp h)
  refine ⟨hbytes, fun h ↦ ?_⟩
  rcases lt_trichotomy name other with hlt | rfl | hlt
  · exact hlt
  · exact absurd h (List.lt_irrefl _)
  · exact absurd h (List.lt_asymm (hbytes hlt))

end Table

end NonlinearProgram
