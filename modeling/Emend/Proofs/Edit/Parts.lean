import Emend.Edit

/-! What an edit is worked out from: the text between the boundaries of a typo, and how far the
correction goes along with it. -/
namespace Emend

variable {typo core s t : List Char} {before after : Nat} {p : Pair} {e : Edit}

/-! Boundaries. -/

/-- The typo is `core` with boundaries around it, as many as there are at its two ends. -/
structure Edged (typo core : List Char) (before after : Nat) : Prop where
  eq : typo = List.replicate before boundary ++ (core ++ List.replicate after boundary)
  first : core.head? ≠ some boundary
  last : core.getLast? ≠ some boundary

theorem exists_dropWhile_boundary (s : List Char) :
    ∃ n, s = List.replicate n boundary ++ s.dropWhile (· == boundary) := by
  induction s with
  | nil => exact ⟨0, rfl⟩
  | cons c s ih =>
    by_cases hc : c = boundary
    · obtain ⟨n, hn⟩ := ih
      refine ⟨n + 1, ?_⟩
      subst hc
      simpa [List.replicate_succ] using hn
    · exact ⟨0, by simp [hc]⟩

theorem head?_dropWhile_boundary (s : List Char) :
    (s.dropWhile (· == boundary)).head? ≠ some boundary := by
  intro h
  have hnot := List.head?_dropWhile_not (· == boundary) s
  simp [h] at hnot

theorem exists_edged (typo : List Char) :
    ∃ before after, Edged typo (stripBoundaries typo) before after := by
  obtain ⟨before, hbefore⟩ := exists_dropWhile_boundary typo
  obtain ⟨after, hafter⟩ := exists_dropWhile_boundary (typo.dropWhile (· == boundary)).reverse
  have hrest : typo.dropWhile (· == boundary) =
      stripBoundaries typo ++ List.replicate after boundary := by
    have hreverse := congrArg List.reverse hafter
    simpa [stripBoundaries] using hreverse
  refine ⟨before, after, ?_, ?_, ?_⟩
  · rw [← hrest]
    exact hbefore
  · intro hhead
    refine head?_dropWhile_boundary typo ?_
    rw [hrest, List.head?_append, hhead]
    rfl
  · have hlast := head?_dropWhile_boundary (typo.dropWhile (· == boundary)).reverse
    rwa [← List.getLast?_reverse] at hlast

namespace Edged
variable (h : Edged typo core before after)
include h

theorem length : typo.length = before + core.length + after := by
  simp [h.eq]
  omega

theorem core_ne_nil {c : Char} (hc : c ∈ typo) (hne : c ≠ boundary) : core ≠ [] := by
  rintro rfl
  rw [h.eq] at hc
  simp [hne] at hc

theorem takeWhile (hcore : core ≠ []) :
    typo.takeWhile (· == boundary) = List.replicate before boundary := by
  obtain ⟨c, rest, rfl⟩ := List.exists_cons_of_ne_nil hcore
  have hc : c ≠ boundary := fun hc => h.first (by rw [hc]; rfl)
  rw [h.eq, List.takeWhile_append_of_pos (by simp)]
  simp [hc]

theorem exists_reverse (hcore : core ≠ []) : ∃ c rest, c ≠ boundary ∧
    typo.reverse = List.replicate after boundary ++ c :: rest := by
  obtain ⟨c, rest, hrest⟩ := List.exists_cons_of_ne_nil (mt List.reverse_eq_nil_iff.mp hcore)
  refine ⟨c, rest ++ List.replicate before boundary, ?_, ?_⟩
  · intro hc
    refine h.last ?_
    rw [← List.head?_reverse, hrest, hc]
    rfl
  · simp [h.eq, hrest]

theorem endsInBoundary (hcore : core ≠ []) : endsInBoundary typo = decide (after ≠ 0) := by
  obtain ⟨c, rest, hc, hreverse⟩ := h.exists_reverse hcore
  rw [Emend.endsInBoundary, ← List.head?_reverse, hreverse]
  cases after with
  | zero => simp [hc]
  | succ n => simp [List.replicate_succ]

/-- More than one boundary at the end. -/
theorem doubly (hcore : core ≠ []) : [boundary, boundary] <:+ typo ↔ 2 ≤ after := by
  obtain ⟨c, rest, hc, hreverse⟩ := h.exists_reverse hcore
  rw [← List.reverse_prefix, hreverse]
  match after with
  | 0 | 1 => simp [Ne.symm hc]
  | n + 2 => simp [List.replicate_succ]

end Edged

/-! Shared characters. -/

theorem sharedLength_cons (c d : Char) : sharedLength (c :: s) (d :: t) =
    if c = d then sharedLength s t + 1 else 0 := by
  by_cases h : c = d <;> simp [sharedLength, h]

theorem sharedLength_le (s t : List Char) :
    sharedLength s t ≤ s.length ∧ sharedLength s t ≤ t.length := by
  have hle : sharedLength s t ≤ (s.zip t).length := (List.takeWhile_sublist _).length_le
  rw [List.length_zip] at hle
  omega

theorem take_sharedLength (s t : List Char) :
    s.take (sharedLength s t) = t.take (sharedLength s t) := by
  induction s generalizing t with
  | nil => simp [sharedLength]
  | cons c s ih =>
    cases t with
    | nil => simp [sharedLength]
    | cons d t =>
      rw [sharedLength_cons]
      split
      next hcd => simp [hcd, ih t]
      next => rfl

theorem sharedLength_take (s t : List Char) :
    sharedLength s (t.take s.length) = sharedLength s t := by
  induction s generalizing t with
  | nil => simp [sharedLength]
  | cons c s ih =>
    cases t with
    | nil => rfl
    | cons d t =>
      rw [List.length_cons, List.take_succ_cons, sharedLength_cons, sharedLength_cons, ih]

namespace Pair

theorem kept_eq (p : Pair) : p.kept = sharedLength p.stripped p.correction.toList := by
  rw [kept, String.toList_copy_take, sharedLength_take]

theorem kept_le (p : Pair) :
    p.kept ≤ p.stripped.length ∧ p.kept ≤ p.correction.toList.length := by
  rw [kept_eq]
  exact sharedLength_le _ _

theorem take_kept (p : Pair) : p.stripped.take p.kept = p.correction.toList.take p.kept := by
  rw [kept_eq]
  exact take_sharedLength _ _

theorem toList_remainder (p : Pair) : p.remainder.toList = p.correction.toList.drop p.kept :=
  String.toList_copy_drop

end Pair

theorem Edit.ofPair_eq_ok : Edit.ofPair p = .ok e ↔ (0 ≤ p.excess ∧ p.excess ≤ 63) ∧
    isAscii p.remainder = true ∧ e = ⟨p.excess.toNat.toUInt8, p.remainder⟩ := by
  have hlargest : (Alphabet.largestCode.toNat : Int) = 63 := rfl
  rw [ofPair, hlargest]
  by_cases hexcess : p.excess < 0 ∨ 63 < p.excess
  · rw [if_pos hexcess]
    constructor
    · intro h
      cases h
    · rintro ⟨hrange, -⟩
      omega
  · rw [if_neg hexcess]
    by_cases hascii : isAscii p.remainder = true
    · rw [if_pos hascii]
      constructor
      · intro h
        cases h
        exact ⟨by omega, hascii, rfl⟩
      · rintro ⟨-, -, rfl⟩
        rfl
    · simp [hascii]

theorem Edit.ofPair_spec (h : Edit.ofPair p = .ok e) : (e.backspaces.toNat : Int) = p.excess ∧
    e.backspaces.toNat ≤ 63 ∧ e.suffix = p.remainder ∧ isAscii e.suffix = true := by
  obtain ⟨hrange, hascii, rfl⟩ := ofPair_eq_ok.mp h
  have hlt : p.excess.toNat < 2 ^ 8 := by omega
  have hbackspaces : p.excess.toNat.toUInt8.toNat = p.excess.toNat := UInt8.toNat_ofNat_of_lt' hlt
  refine ⟨?_, ?_, rfl, hascii⟩
  · rw [hbackspaces]
    omega
  · rw [hbackspaces]
    omega

end Emend
