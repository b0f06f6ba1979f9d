import Emend.Proofs.Bytes
import Emend.Text.Lines

/-! Text as bytes. A byte below 0x80 is a character of its own wherever it stands, so lines can be
cut before they are read as text. -/
namespace Emend.Text
variable {s t : String} {c : Char} {b : UInt8} {line : List UInt8}

/-- The bytes of a text. -/
def utf8 (s : String) : List UInt8 := s.toUTF8.data.toList

theorem utf8_eq (s : String) : utf8 s = s.toList.flatMap String.utf8EncodeChar := by
  obtain ⟨cs, rfl⟩ : ∃ cs, s = String.ofList cs := ⟨s.toList, String.ofList_toList.symm⟩
  rw [String.toList_ofList, utf8, String.toUTF8_eq_toByteArray, String.toByteArray_ofList]
  simp [List.utf8Encode]

theorem decodeLine_eq_some : decodeLine line = some s ↔ line = utf8 s := by
  rw [decodeLine, fromUTF8?_eq_some, utf8]
  constructor
  · intro h
    rw [← h]
    simp
  · rintro rfl
    apply ByteArray.ext
    simp

theorem decodeLine_utf8 (s : String) : decodeLine (utf8 s) = some s := decodeLine_eq_some.mpr rfl

theorem decodeLine_eq_none : decodeLine line = none ↔ ∀ s, line ≠ utf8 s := by
  rw [Option.eq_none_iff_forall_ne_some]
  simp [decodeLine_eq_some]

/-- A byte of a character is the character itself, or has its high bit set. -/
theorem mem_utf8EncodeChar (h : b ∈ String.utf8EncodeChar c) :
    (String.utf8EncodeChar c = [b] ∧ c.toNat = b.toNat) ∨ 0x80 ≤ b.toNat := by
  have hc : c.val.toNat = c.toNat := rfl
  unfold String.utf8EncodeChar at h ⊢
  simp only at h ⊢
  split at h
  next hsmall =>
    obtain rfl := List.mem_singleton.mp h
    refine Or.inl ⟨if_pos hsmall, ?_⟩
    rw [UInt8.toNat_ofNat_of_lt' (Nat.lt_of_le_of_lt hsmall (by decide)), hc]
  next =>
    refine Or.inr ?_
    split at h
    next =>
      simp only [List.mem_cons, List.not_mem_nil, or_false] at h
      rcases h with rfl | rfl <;> simp only [UInt8.toNat_ofNat'] <;> omega
    next =>
      split at h
      next =>
        simp only [List.mem_cons, List.not_mem_nil, or_false] at h
        rcases h with rfl | rfl | rfl <;> simp only [UInt8.toNat_ofNat'] <;> omega
      next =>
        simp only [List.mem_cons, List.not_mem_nil, or_false] at h
        rcases h with rfl | rfl | rfl | rfl <;> simp only [UInt8.toNat_ofNat'] <;> omega

theorem eq_of_mem_utf8EncodeChar (hb : b.toNat < 0x80) (h : b ∈ String.utf8EncodeChar c) :
    String.utf8EncodeChar c = [b] ∧ c.toNat = b.toNat := by
  rcases mem_utf8EncodeChar h with h | h
  · exact h
  · omega

theorem mem_utf8_of_mem (hc : c ∈ s.toList) (h : b ∈ String.utf8EncodeChar c) : b ∈ utf8 s := by
  rw [utf8_eq]
  exact List.mem_flatMap.mpr ⟨c, hc, h⟩

/-- A text has such a byte only if it has the character. -/
theorem exists_of_mem_utf8 (hb : b.toNat < 0x80) (h : b ∈ utf8 s) :
    ∃ c ∈ s.toList, c.toNat = b.toNat := by
  rw [utf8_eq] at h
  obtain ⟨c, hc, hmem⟩ := List.mem_flatMap.mp h
  exact ⟨c, hc, (eq_of_mem_utf8EncodeChar hb hmem).2⟩

/-- Bytes that end in such a byte are a text that ends in the character. -/
theorem exists_of_utf8_concat (hb : b.toNat < 0x80) (h : line ++ [b] = utf8 s) :
    ∃ t c, line = utf8 t ∧ s = t.push c ∧ c.toNat = b.toNat := by
  obtain ⟨cs, rfl⟩ : ∃ cs, s = String.ofList cs := ⟨s.toList, String.ofList_toList.symm⟩
  rw [utf8_eq, String.toList_ofList] at h
  rcases List.eq_nil_or_concat cs with rfl | ⟨ds, c, rfl⟩
  · simp at h
  · rw [List.concat_eq_append] at h ⊢
    rw [List.flatMap_append, List.flatMap_singleton] at h
    obtain ⟨front, last, hlast⟩ : ∃ front last, String.utf8EncodeChar c = front ++ [last] := by
      rcases List.eq_nil_or_concat (String.utf8EncodeChar c) with hnil | hconcat
      · exact absurd hnil String.utf8EncodeChar_ne_nil
      · simpa only [List.concat_eq_append] using hconcat
    rw [hlast, ← List.append_assoc] at h
    obtain ⟨-, rfl⟩ := List.append_singleton_inj.mp h
    have hmem : b ∈ String.utf8EncodeChar c := by
      simp [hlast]
    obtain ⟨hone, hval⟩ := eq_of_mem_utf8EncodeChar hb hmem
    rw [hone] at hlast
    have hfront : front = [] := by
      simpa using hlast.symm
    subst hfront
    refine ⟨String.ofList ds, c, ?_, ?_, hval⟩
    · rw [utf8_eq, String.toList_ofList]
      simpa using h
    · apply String.toList_inj.mp
      simp

end Emend.Text
