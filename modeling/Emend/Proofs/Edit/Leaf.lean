import Emend.Dictionary.Source
import Emend.Proofs.Bytes
import Emend.Proofs.Edit.Parts
import Emend.Proofs.Layout.Bytes

/-! Reading a leaf back. Its text ends at the first zero byte, so an edit that types a NUL is read
as another one. -/
namespace Emend.Edit

/-- The edit at the front of bytes, and what follows it: a count with its flag, then the text up to
the first zero. -/
def readLeaf? : List UInt8 → Option (Edit × List UInt8)
  | [] => none
  | b :: bs =>
    if b &&& Alphabet.leafBit = 0 then none
    else match bs.dropWhile (· != 0) with
      | [] => none
      | _ :: rest => (String.fromUTF8? (bs.takeWhile (· != 0)).toByteArray).map fun text =>
        (⟨b &&& Alphabet.largestCode, text⟩, rest)

variable {p : Pair} {e : Edit} {b : UInt8} {s text : String} {cs before after : List Char}
  {rest : List UInt8}

theorem bne_of_not_mem {α : Type} [DecidableEq α] {a : α} {before : List α} (h : a ∉ before) :
    ∀ x ∈ before, (x != a) = true := by
  intro x hx
  exact bne_iff_ne.mpr fun heq => h (heq ▸ hx)

/-- A list is cut in front of the first `a`. -/
theorem takeWhile_bne {α : Type} [DecidableEq α] {a : α} {before : List α} (h : a ∉ before)
    (after : List α) : (before ++ a :: after).takeWhile (· != a) = before ∧
      (before ++ a :: after).dropWhile (· != a) = a :: after := by
  have hne := bne_of_not_mem h
  rw [List.takeWhile_append_of_pos hne, List.dropWhile_append_of_pos hne]
  simp

theorem leaf_flags (hb : b.toNat ≤ 63) : (Alphabet.leafBit ||| b) &&& Alphabet.leafBit ≠ 0 ∧
    (Alphabet.leafBit ||| b) &&& Alphabet.largestCode = b := by
  have hall : ∀ m ≤ 63, (Alphabet.leafBit ||| UInt8.ofNat m) &&& Alphabet.leafBit ≠ 0 ∧
      (Alphabet.leafBit ||| UInt8.ofNat m) &&& Alphabet.largestCode = UInt8.ofNat m := by decide
  simpa using hall b.toNat hb

/-! One byte for each character. -/

def nul : Char := '\x00'

/-- The byte of an ASCII character. -/
def asciiByte (c : Char) : UInt8 := c.val.toUInt8

theorem toUTF8_ofList (hcs : ∀ c ∈ cs, c.toNat < 0x80) :
    (String.ofList cs).toUTF8.data.toList = cs.map asciiByte := by
  rw [String.toUTF8_eq_toByteArray, String.toByteArray_ofList]
  induction cs with
  | nil => simp
  | cons c cs ih =>
    obtain ⟨hc, hcs⟩ := List.forall_mem_cons.mp hcs
    have hsize : c.utf8Size = 1 := by
      rw [Char.utf8Size_eq_one_iff, UInt32.le_iff_toNat_le]
      exact Nat.le_of_lt_succ hc
    rw [List.utf8Encode_cons, List.utf8Encode_singleton, String.utf8EncodeChar_eq_singleton hsize]
    simp [ih hcs, asciiByte]

/-- Only a NUL gives a zero byte. -/
theorem zero_not_mem_toUTF8 (hcs : ∀ c ∈ cs, c.toNat < 0x80) (hnul : nul ∉ cs) :
    0 ∉ (String.ofList cs).toUTF8.data.toList := by
  rw [toUTF8_ofList hcs]
  intro hzero
  obtain ⟨c, hc, hbyte⟩ := List.mem_map.mp hzero
  have hval : c.toNat % 256 = 0 := congrArg UInt8.toNat hbyte
  have hlt := hcs c hc
  have hnat : c.toNat = 0 := by omega
  have heq : c = nul := Char.toNat_inj.mp hnat
  exact hnul (heq ▸ hc)

/-- The bytes of an ASCII text and the zero behind them, cut at the first zero. -/
theorem exists_text (hascii : isAscii s = true) : ∃ text : String, ∃ left,
    s.toUTF8.data.toList ++ [0] = text.toUTF8.data.toList ++ 0 :: left ∧
    0 ∉ text.toUTF8.data.toList ∧ text.toList = s.toList.takeWhile (· != nul) ∧
    (text = s ∧ left = [] ↔ nul ∉ s.toList) := by
  have hall : ∀ c ∈ s.toList, c.toNat < 0x80 := by
    simpa [isAscii] using hascii
  obtain ⟨cs, rfl⟩ : ∃ cs, s = String.ofList cs := ⟨s.toList, String.ofList_toList.symm⟩
  rw [String.toList_ofList] at hall ⊢
  by_cases hnul : nul ∈ cs
  · obtain ⟨before, after, rfl, hbefore⟩ := List.eq_append_cons_of_mem hnul
    have hpart : ∀ c ∈ before, c.toNat < 0x80 := by
      intro c hc
      exact hall c (List.mem_append_left _ hc)
    refine ⟨String.ofList before, after.map asciiByte ++ [0], ?_, ?_, ?_, ?_⟩
    · rw [toUTF8_ofList hall, toUTF8_ofList hpart]
      simp [show asciiByte nul = 0 from rfl]
    · exact zero_not_mem_toUTF8 hpart hbefore
    · rw [String.toList_ofList, (takeWhile_bne hbefore after).1]
    · simp
  · refine ⟨String.ofList cs, [], rfl, zero_not_mem_toUTF8 hall hnul, ?_, ?_⟩
    · have htake : (cs ++ []).takeWhile (· != nul) = cs ++ [].takeWhile (· != nul) :=
        List.takeWhile_append_of_pos (bne_of_not_mem hnul)
      simpa using htake.symm
    · simp [hnul]

/-! Reading. -/

theorem readLeaf?_cons (hb : b.toNat ≤ 63) (htext : 0 ∉ text.toUTF8.data.toList) :
    readLeaf? ((Alphabet.leafBit ||| b) :: (text.toUTF8.data.toList ++ 0 :: rest)) =
      some (⟨b, text⟩, rest) := by
  obtain ⟨hflag, hcount⟩ := leaf_flags hb
  obtain ⟨htaken, hleft⟩ := takeWhile_bne htext rest
  have hbytes : text.toUTF8.data.toList.toByteArray = text.toUTF8 :=
    ByteArray.ext (by rw [List.data_toByteArray, Array.toArray_toList])
  rw [readLeaf?, if_neg hflag, hcount, htaken, hleft, hbytes, fromUTF8?_eq_some.mpr rfl]
  rfl

/-- The leaf of an edit is read as its count and its text up to the first NUL. The edit, and what
follows its leaf, is read as it was written if and only if there is no NUL. -/
theorem readLeaf?_leafBytes (h : Edit.ofPair p = .ok e) (rest : List UInt8) :
    ∃ text left, readLeaf? (e.leafBytes.data.toList ++ rest) = some (⟨e.backspaces, text⟩, left) ∧
      text.toList = e.suffix.toList.takeWhile (· != nul) ∧
      (text = e.suffix ∧ left = rest ↔ nul ∉ e.suffix.toList) := by
  obtain ⟨-, hle, -, hascii⟩ := Edit.ofPair_spec h
  obtain ⟨text, left, hbytes, hzero, htext, hwhole⟩ := exists_text hascii
  refine ⟨text, left ++ rest, ?_, htext, ?_⟩
  · rw [toList_leafBytes, hbytes, List.cons_append, List.append_assoc, List.cons_append]
    exact readLeaf?_cons hle hzero
  · rw [← hwhole]
    simp

theorem readLeaf?_leafBytes_hte : ∃ e, Edit.ofPair ⟨"hte", "the"⟩ = .ok e ∧
    readLeaf? (e.leafBytes.data.toList ++ [7]) = some (e, [7]) := by
  have h : Edit.ofPair ⟨"hte", "the"⟩ = .ok ⟨2, "the"⟩ :=
    ofPair_eq_ok.mpr ⟨by decide +kernel, by decide +kernel, by decide +kernel⟩
  obtain ⟨text, left, hread, -, hwhole⟩ := readLeaf?_leafBytes h [7]
  obtain ⟨rfl, rfl⟩ := hwhole.mpr (by decide +kernel)
  exact ⟨_, h, hread⟩

/-- A dictionary may have a NUL in a correction, and of its leaf the first character is read. -/
theorem readLeaf?_leafBytes_nul :
    VettedDictionary.ofBytes "english" "hte -> t\x00he\n".toUTF8.data.toList .empty 0 =
      .ok ⟨⟨"english", [⟨"hte", "t\x00he"⟩]⟩, []⟩ ∧
    ∃ e, Edit.ofPair ⟨"hte", "t\x00he"⟩ = .ok e ∧ e = ⟨2, "t\x00he"⟩ ∧
      readLeaf? e.leafBytes.data.toList = some (⟨2, "t"⟩, [104, 101, 0]) := by
  refine ⟨rfl, ⟨2, "t\x00he"⟩, ?_, rfl, by decide +kernel⟩
  exact ofPair_eq_ok.mpr ⟨by decide +kernel, by decide +kernel, by decide +kernel⟩

end Emend.Edit
