import Emend.Proofs.Edit.Parts

/-! An edit against every other way to turn the screen into the correction. None erases fewer
characters, and none types a shorter text, so a pair is refused for its number of backspaces only
if the screen is out of reach or the correction goes on where the typo ends. -/
namespace Emend

variable {s t u : List Char} {p : Pair} {e : Edit} {count : Nat} {screen typed text : String}

/-- `shared` is the longest text that both `s` and `t` begin with. -/
structure LongestShared (s t shared : List Char) : Prop where
  left : shared <+: s
  right : shared <+: t
  longest : ∀ u, u <+: s → u <+: t → u <+: shared

theorem length_le_sharedLength (hs : u <+: s) (ht : u <+: t) : u.length ≤ sharedLength s t := by
  induction u generalizing s t with
  | nil => exact Nat.zero_le _
  | cons c u ih =>
    obtain ⟨s, rfl⟩ := hs
    obtain ⟨t, rfl⟩ := ht
    rw [List.cons_append, List.cons_append, sharedLength_cons, if_pos rfl]
    exact Nat.succ_le_succ (ih (List.prefix_append u s) (List.prefix_append u t))

theorem longestShared_take (s t : List Char) :
    LongestShared s t (t.take (sharedLength s t)) := by
  refine ⟨?_, List.take_prefix _ t, ?_⟩
  · rw [← take_sharedLength]
    exact List.take_prefix _ s
  · intro u hs ht
    exact List.prefix_take_iff.mpr ⟨ht, length_le_sharedLength hs ht⟩

/-- Erasing the last `count` characters of `screen` and typing `typed` gives `text`. -/
def Retypes (screen : String) (count : Nat) (typed text : String) : Prop :=
  ∃ front erased, screen = front ++ erased ∧ erased.length = count ∧ text = front ++ typed

theorem Edit.apply_eq_some :
    e.apply screen = some text ↔ Retypes screen e.backspaces.toNat e.suffix text := by
  constructor
  · intro h
    rw [apply] at h
    split at h
    next hle =>
      cases h
      refine ⟨_, String.ofList (screen.toList.drop (screen.toList.length - e.backspaces.toNat)),
        ?_, ?_, rfl⟩
      · rw [← String.toList_inj, String.toList_append, String.toList_copy_dropEnd,
          String.toList_ofList, List.take_append_drop]
      · rw [← String.length_toList] at hle ⊢
        rw [String.toList_ofList, List.length_drop]
        omega
    next => cases h
  · rintro ⟨front, erased, rfl, herased, rfl⟩
    have hfront : ((front ++ erased).dropEnd e.backspaces.toNat).copy = front := by
      rw [← String.toList_inj, String.toList_copy_dropEnd, String.toList_append,
        List.length_append, ← herased, ← String.length_toList, Nat.add_sub_cancel, List.take_left]
    have hle : e.backspaces.toNat ≤ (front ++ erased).length := by
      rw [String.length_append]
      omega
    rw [apply, if_pos hle, hfront]

namespace Pair

/-- The correction goes on where the typo ends, and no boundary completes the typo. Its last
character would have to stay, but never reaches the screen. -/
def GoesOn (p : Pair) : Prop :=
  endsInBoundary p.typo.toList = false ∧ p.stripped <+: p.correction.toList

theorem stripped_prefix_iff : p.stripped <+: p.correction.toList ↔ p.kept = p.stripped.length := by
  have hle := p.kept_le
  constructor
  · intro h
    have hge := length_le_sharedLength (List.prefix_refl p.stripped) h
    rw [← kept_eq] at hge
    omega
  · intro h
    have htake := p.take_kept
    rw [h, List.take_length] at htake
    rw [htake]
    exact List.take_prefix _ _

theorem toList_screenBefore (p : Pair) : (Edit.screenBefore p.typo).toList =
    if endsInBoundary p.typo.toList then p.stripped else p.stripped.dropLast :=
  String.toList_ofList

theorem screenBefore_prefix (p : Pair) : (Edit.screenBefore p.typo).toList <+: p.stripped := by
  rw [toList_screenBefore]
  split
  · exact List.prefix_refl _
  · exact List.dropLast_prefix _

theorem length_screenBefore (p : Pair) : (Edit.screenBefore p.typo).length =
    p.stripped.length - (if endsInBoundary p.typo.toList then 0 else 1) := by
  rw [← String.length_toList, toList_screenBefore]
  split
  · rfl
  · rw [List.length_dropLast]

/-- The number of characters to be erased is negative, or it is what the screen has more than the
correction shares with it. -/
theorem excess_cases (p : Pair) : (p.GoesOn ∧ p.excess < 0) ∨
    (¬ p.GoesOn ∧ p.kept ≤ (Edit.screenBefore p.typo).length ∧
      p.excess = (Edit.screenBefore p.typo).length - p.kept) := by
  have hle := p.kept_le
  rw [length_screenBefore, GoesOn, stripped_prefix_iff, excess]
  cases endsInBoundary p.typo.toList with
  | true =>
    simp only [Bool.true_eq_false, false_and, not_false_eq_true, true_and, false_or, ↓reduceIte]
    omega
  | false =>
    simp only [true_and, Bool.false_eq_true, ↓reduceIte]
    omega

theorem take_kept_screenBefore (h : p.kept ≤ (Edit.screenBefore p.typo).length) :
    (Edit.screenBefore p.typo).toList.take p.kept = p.correction.toList.take p.kept := by
  obtain ⟨rest, hrest⟩ := p.screenBefore_prefix
  rw [← p.take_kept, ← hrest]
  exact (List.take_append_of_le_length h).symm

/-- What stays is what the correction shares with the screen. -/
theorem retypes_remainder (h : p.kept ≤ (Edit.screenBefore p.typo).length) :
    Retypes (Edit.screenBefore p.typo) ((Edit.screenBefore p.typo).length - p.kept) p.remainder
      p.correction := by
  refine ⟨String.ofList (p.correction.toList.take p.kept),
    String.ofList ((Edit.screenBefore p.typo).toList.drop p.kept), ?_, ?_, ?_⟩
  · rw [← String.toList_inj, String.toList_append, String.toList_ofList, String.toList_ofList,
      ← take_kept_screenBefore h, List.take_append_drop]
  · rw [← String.length_toList, String.toList_ofList, List.length_drop, String.length_toList]
  · rw [← String.toList_inj, String.toList_append, String.toList_ofList, toList_remainder,
      List.take_append_drop]

/-- Whatever else stays on the screen is shared as well, so it is no longer, and the rest of the
correction has to be typed. -/
theorem retypes_shortest (h : Retypes (Edit.screenBefore p.typo) count typed p.correction) :
    (Edit.screenBefore p.typo).length ≤ p.kept + count ∧ ∃ more, typed = more ++ p.remainder := by
  obtain ⟨front, erased, hscreen, rfl, hcorrection⟩ := h
  have htext : p.correction.toList = front.toList ++ typed.toList := by
    rw [hcorrection, String.toList_append]
  have hshared : front.toList <+: p.correction.toList.take p.kept := by
    rw [kept_eq]
    refine (longestShared_take _ _).longest _ ?_ ?_
    · refine List.IsPrefix.trans ?_ p.screenBefore_prefix
      rw [hscreen, String.toList_append]
      exact List.prefix_append _ _
    · rw [htext]
      exact List.prefix_append _ _
  constructor
  · have hlength := hshared.length_le
    rw [List.length_take, String.length_toList] at hlength
    rw [hscreen, String.length_append]
    omega
  · obtain ⟨more, hmore⟩ := hshared
    refine ⟨String.ofList more, ?_⟩
    rw [← String.toList_inj, String.toList_append, String.toList_ofList, toList_remainder]
    have hcut := List.take_append_drop p.kept p.correction.toList
    rw [← hmore, List.append_assoc] at hcut
    exact (List.append_cancel_left (hcut.trans htext)).symm

/-- There is no edit with as few backspaces as can be stored, or the correction goes on where the
typo ends. -/
def OutOfReach (p : Pair) : Prop :=
  p.GoesOn ∨ ¬ ∃ count ≤ 63, ∃ typed, Retypes (Edit.screenBefore p.typo) count typed p.correction

theorem outOfReach_iff : p.OutOfReach ↔ p.excess < 0 ∨ 63 < p.excess := by
  rcases p.excess_cases with ⟨hgoesOn, hneg⟩ | ⟨hgoesOn, hle, hexcess⟩
  · exact ⟨fun _ => Or.inl hneg, fun _ => Or.inl hgoesOn⟩
  rw [OutOfReach, or_iff_right hgoesOn, or_iff_right (by omega)]
  -- There is always a way, and the one that keeps what is shared has the fewest backspaces.
  constructor
  · intro hnone
    refine Int.not_le.mp fun hfew => ?_
    exact hnone ⟨_, by omega, _, retypes_remainder hle⟩
  · rintro hmany ⟨count, hcount, typed, h⟩
    have := (retypes_shortest h).1
    omega

end Pair

namespace Edit

/-- The edit gives the correction, and every other way to it from the same screen erases at least
as many characters and types at least as much. -/
theorem ofPair_shortest (h : ofPair p = .ok e) : e.backspaces.toNat ≤ 63 ∧
    e.apply (screenBefore p.typo) = some p.correction ∧
    ∀ count typed, Retypes (screenBefore p.typo) count typed p.correction →
      e.backspaces.toNat ≤ count ∧ e.suffix.length ≤ typed.length ∧
        e.suffix.utf8ByteSize ≤ typed.utf8ByteSize := by
  obtain ⟨hbackspaces, hstored, hsuffix, -⟩ := ofPair_spec h
  rcases p.excess_cases with ⟨-, hneg⟩ | ⟨-, hle, hexcess⟩
  · omega
  have hcount : e.backspaces.toNat = (screenBefore p.typo).length - p.kept := by omega
  refine ⟨hstored, ?_, ?_⟩
  · rw [apply_eq_some, hcount, hsuffix]
    exact Pair.retypes_remainder hle
  · intro count typed hretypes
    obtain ⟨herased, more, rfl⟩ := Pair.retypes_shortest hretypes
    rw [hsuffix, String.length_append, String.utf8ByteSize_append]
    omega

/-- The typo and the correction share an `ï`, which takes two bytes. -/
theorem ofPair_shortest_naive : ∃ e, ofPair ⟨"naïev:", "naïve"⟩ = .ok e ∧
    e.apply (screenBefore "naïev:") = some "naïve" ∧
    ¬ Retypes (screenBefore "naïev:") 1 "ve" "naïve" := by
  have h : ofPair ⟨"naïev:", "naïve"⟩ = .ok ⟨2, "ve"⟩ :=
    ofPair_eq_ok.mpr ⟨by decide +kernel, by decide +kernel, by decide +kernel⟩
  obtain ⟨-, happly, hleast⟩ := ofPair_shortest h
  refine ⟨_, h, happly, fun hretypes => ?_⟩
  exact absurd (hleast 1 "ve" hretypes).1 (by decide)

theorem ofPair_cases (p : Pair) :
    (p.OutOfReach ∧ ofPair p = .error (.tooManyBackspaces p.typo p.correction p.excess)) ∨
    (¬ p.OutOfReach ∧ isAscii p.remainder = false ∧
      ofPair p = .error (.nonAsciiSuffix p.typo p.correction)) ∨
    (¬ p.OutOfReach ∧ isAscii p.remainder = true ∧ ∃ e, ofPair p = .ok e) := by
  have hlargest : (Alphabet.largestCode.toNat : Int) = 63 := rfl
  rw [Pair.outOfReach_iff, ofPair, hlargest]
  by_cases hexcess : p.excess < 0 ∨ 63 < p.excess
  · exact Or.inl ⟨hexcess, if_pos hexcess⟩
  · rw [if_neg hexcess]
    cases isAscii p.remainder with
    | false => exact Or.inr (Or.inl ⟨hexcess, rfl, rfl⟩)
    | true => exact Or.inr (Or.inr ⟨hexcess, rfl, _, rfl⟩)

theorem isAscii_remainder_eq_false : isAscii p.remainder = false ↔
    ∃ c ∈ p.correction.toList.drop p.kept, 0x80 ≤ c.toNat := by
  simp [isAscii, p.toList_remainder]

/-- An error says that the correction is out of reach, or else that one of the characters to be
typed cannot be stored. Those that stay on the screen may be any. -/
theorem ofPair_refuses (p : Pair) :
    (ofPair p = .error (.tooManyBackspaces p.typo p.correction p.excess) ↔ p.OutOfReach) ∧
    (∃ shared rest, LongestShared p.stripped p.correction.toList shared ∧
      p.correction.toList = shared ++ rest ∧
      (ofPair p = .error (.nonAsciiSuffix p.typo p.correction) ↔
        ¬ p.OutOfReach ∧ ∃ c ∈ rest, 0x80 ≤ c.toNat)) ∧
    ∀ err, ofPair p = .error err → err = .tooManyBackspaces p.typo p.correction p.excess ∨
      err = .nonAsciiSuffix p.typo p.correction := by
  have hshared := longestShared_take p.stripped p.correction.toList
  rw [← Pair.kept_eq] at hshared
  refine ⟨?_, ⟨_, _, hshared, (List.take_append_drop _ _).symm, ?_⟩, ?_⟩
  · rcases ofPair_cases p with ⟨hout, h⟩ | ⟨hout, -, h⟩ | ⟨hout, -, e, h⟩ <;> simp [h, hout]
  · rw [← isAscii_remainder_eq_false]
    rcases ofPair_cases p with ⟨hout, h⟩ | ⟨hout, hascii, h⟩ | ⟨hout, hascii, e, h⟩
    · simp [h, hout]
    · simp [h, hout, hascii]
    · simp [h, hout, hascii]
  · intro err herr
    rcases ofPair_cases p with ⟨-, h⟩ | ⟨-, -, h⟩ | ⟨-, -, e, h⟩
    · rw [h] at herr
      cases herr
      exact Or.inl rfl
    · rw [h] at herr
      cases herr
      exact Or.inr rfl
    · rw [h] at herr
      cases herr

end Edit
end Emend
