/-! Lists of bytes, and arrays of bytes as lists. -/
namespace Emend

theorem toList_foldl_push {out : ByteArray} {bs : List UInt8} :
    (bs.foldl ByteArray.push out).data.toList = out.data.toList ++ bs := by
  induction bs generalizing out with
  | nil => simp
  | cons b bs ih => simp [ih]

theorem foldl_push_toList (bytes : ByteArray) :
    bytes.data.toList.foldl ByteArray.push ByteArray.empty = bytes := by
  refine ByteArray.ext (Array.ext' ?_)
  rw [toList_foldl_push]
  rfl

/-- The bytes from a place on, as many as are asked for. -/
theorem toList_extract (data : ByteArray) (i n : Nat) :
    (data.extract i (i + n)).data.toList = (data.data.toList.drop i).take n := by
  rw [ByteArray.data_extract, Array.toList_extract, List.extract_eq_take_drop,
    Nat.add_sub_cancel_left]

theorem fromUTF8?_eq_some {b : ByteArray} {s : String} :
    String.fromUTF8? b = some s ↔ b = s.toUTF8 := by
  constructor
  · intro h
    unfold String.fromUTF8? at h
    split at h
    next hvalid =>
      cases h
      rfl
    next => cases h
  · rintro rfl
    rw [String.fromUTF8?, String.toUTF8_eq_toByteArray, dif_pos s.isValidUTF8]
    rfl

end Emend
