import Emend.Text.Lowercase

/-! Lowercase text is no shorter, and what was not there before is a letter or a mark. -/
namespace Emend.Text
variable {c : Char} {cs before out : List Char} {runs : List CaseRun} {n : Nat}

/-! Length. -/

theorem lowerChar_ne_nil (c : Char) : lowerChar c ≠ [] := by
  unfold lowerChar
  split
  · exact List.cons_ne_nil _ _
  · split <;> exact List.cons_ne_nil _ _

theorem length_lowerOnto_ge (before cs out : List Char) :
    cs.length + out.length ≤ (lowerOnto before cs out).length := by
  induction cs generalizing before out with
  | nil => simp [lowerOnto]
  | cons c cs ih =>
    rw [lowerOnto]
    refine Nat.le_trans ?_ (ih _ _)
    have hform : 0 < (if c = capitalSigma then [lowerSigma before cs] else lowerChar c).length := by
      split
      · exact Nat.succ_pos 0
      · exact List.length_pos_iff.mpr (lowerChar_ne_nil c)
    rw [List.length_append, List.length_reverse, List.length_cons]
    omega

/-- No character is lost. -/
theorem length_lower_ge (cs : List Char) : cs.length ≤ (lower cs).length :=
  length_lowerOnto_ge [] cs []

/-! Runs of capitals. -/

/-- A letter of the run. -/
structure CaseRun.Holds (r : CaseRun) (n : Nat) : Prop where
  first : r.first ≤ n
  last : n ≤ r.last
  step : (n - r.first) % r.step = 0

theorem lowerPoint_image (runs : List CaseRun) (n : Nat) : lowerPoint runs n = n ∨
    ∃ r ∈ runs, r.Holds n ∧ lowerPoint runs n = r.image + (n - r.first) := by
  induction runs with
  | nil => exact Or.inl rfl
  | cons r runs ih =>
    have hrest : lowerPoint runs n = n ∨
        ∃ s ∈ r :: runs, s.Holds n ∧ lowerPoint runs n = s.image + (n - s.first) :=
      ih.imp_right fun ⟨s, hs, h⟩ => ⟨s, List.mem_cons_of_mem r hs, h⟩
    rw [lowerPoint]
    split
    next => exact Or.inl rfl
    next hfirst =>
      split
      next hlast =>
        split
        next hstep => exact Or.inr ⟨r, List.mem_cons_self, ⟨by omega, hlast, hstep⟩, rfl⟩
        next => exact hrest
      next => exact hrest

theorem image_caseRuns : ∀ r ∈ caseRuns, 0x41 ≤ r.image := by decide +kernel

theorem lowerPoint_cases (n : Nat) : lowerPoint caseRuns n = n ∨ 0x41 ≤ lowerPoint caseRuns n := by
  rcases lowerPoint_image caseRuns n with hsame | ⟨r, hr, -, himage⟩
  · exact Or.inl hsame
  · rw [himage]
    exact Or.inr (Nat.le_trans (image_caseRuns r hr) (Nat.le_add_right _ _))

/-! Characters. -/

/-- A sign is a character that comes before the letters. -/
def IsSign (c : Char) : Prop := 0 < c.toNat ∧ c.toNat < 0x41

theorem toNat_ofNat_of_valid (h : n.isValidChar) : (Char.ofNat n).toNat = n := by
  rw [Char.ofNat, dif_pos h]
  rfl

theorem toNat_ofNat_cases (n : Nat) : (Char.ofNat n).toNat = n ∨ (Char.ofNat n).toNat = 0 := by
  by_cases h : n.isValidChar
  · exact Or.inl (toNat_ofNat_of_valid h)
  · rw [Char.ofNat, dif_neg h]
    exact Or.inr rfl

theorem toLower_cases (c : Char) : c.toLower = c ∨ 0x41 ≤ c.toLower.toNat := by
  unfold Char.toLower
  split
  next h =>
    obtain ⟨hlow, hhigh⟩ := h
    rw [ge_iff_le, UInt32.le_iff_toNat_le, show 'A'.val.toNat = 0x41 from rfl] at hlow
    rw [UInt32.le_iff_toNat_le, show 'Z'.val.toNat = 0x5A from rfl] at hhigh
    refine Or.inr ?_
    show 0x41 ≤ (c.val + ('a'.val - 'A'.val)).toNat
    rw [UInt32.toNat_add, show ('a'.val - 'A'.val).toNat = 0x20 from rfl]
    omega
  next => exact Or.inl rfl

/-- Lowercase forms have no signs that were not there. -/
theorem eq_of_mem_lowerChar {a : Char} (hc : IsSign c) (h : c ∈ lowerChar a) : c = a := by
  obtain ⟨hpos, hlt⟩ := hc
  unfold lowerChar at h
  split at h
  next =>
    rw [List.mem_singleton] at h
    rcases toLower_cases a with hsame | hletter
    · rw [h, hsame]
    · rw [← h] at hletter
      omega
  next hwide =>
    split at h
    next =>
      have hi : c = 'i' ∨ c = '\u0307' := by simpa using h
      rcases hi with rfl | rfl <;> exact absurd hlt (by decide)
    next =>
      rw [List.mem_singleton] at h
      have hpoint := lowerPoint_cases a.toNat
      have hc := toNat_ofNat_cases (lowerPoint caseRuns a.toNat)
      rw [← h] at hc
      omega

theorem lowerSigma_cases (before after : List Char) :
    lowerSigma before after = '\u03C2' ∨ lowerSigma before after = '\u03C3' := by
  unfold lowerSigma
  split
  · exact Or.inl rfl
  · exact Or.inr rfl

theorem toNat_lowerSigma (before after : List Char) : 0x41 ≤ (lowerSigma before after).toNat := by
  rcases lowerSigma_cases before after with h | h <;>
  · rw [h]
    decide

theorem mem_lowerOnto_cases (h : c ∈ lowerOnto before cs out) :
    c ∈ out ∨ (∃ a ∈ cs, a ≠ capitalSigma ∧ c ∈ lowerChar a) ∨
      capitalSigma ∈ cs ∧ ∃ front back, c = lowerSigma front back := by
  induction cs generalizing before out with
  | nil => exact Or.inl (List.mem_reverse.mp h)
  | cons a cs ih =>
    rw [lowerOnto] at h
    rcases ih h with hout | ⟨b, hb, hne, hc⟩ | ⟨hsigma, hc⟩
    · rw [List.mem_append, List.mem_reverse] at hout
      rcases hout with hform | hout
      · split at hform
        next ha =>
          exact Or.inr (Or.inr ⟨ha ▸ List.mem_cons_self, _, _, List.mem_singleton.mp hform⟩)
        next ha => exact Or.inr (Or.inl ⟨a, List.mem_cons_self, ha, hform⟩)
      · exact Or.inl hout
    · exact Or.inr (Or.inl ⟨b, List.mem_cons_of_mem a hb, hne, hc⟩)
    · exact Or.inr (Or.inr ⟨List.mem_cons_of_mem a hsigma, hc⟩)

/-- Where the characters of lowercase text come from. -/
theorem mem_lower_cases (h : c ∈ lower cs) :
    (∃ a ∈ cs, a ≠ capitalSigma ∧ c ∈ lowerChar a) ∨
      capitalSigma ∈ cs ∧ ∃ front back, c = lowerSigma front back :=
  (mem_lowerOnto_cases h).resolve_left List.not_mem_nil

theorem mem_lowerOnto_of_mem_out (h : c ∈ out) : c ∈ lowerOnto before cs out := by
  induction cs generalizing before out with
  | nil => exact List.mem_reverse.mpr h
  | cons a cs ih => exact ih (List.mem_append_right _ h)

theorem mem_lowerOnto {a : Char} (ha : a ∈ cs) (hne : a ≠ capitalSigma) (h : c ∈ lowerChar a) :
    c ∈ lowerOnto before cs out := by
  induction cs generalizing before out with
  | nil => cases ha
  | cons b cs ih =>
    rw [lowerOnto]
    rcases List.mem_cons.mp ha with rfl | ha
    · apply mem_lowerOnto_of_mem_out
      rw [if_neg hne]
      exact List.mem_append_left _ (List.mem_reverse.mpr h)
    · exact ih ha

theorem mem_lower {a : Char} (ha : a ∈ cs) (hne : a ≠ capitalSigma) (h : c ∈ lowerChar a) :
    c ∈ lower cs := mem_lowerOnto ha hne h

/-- Each sign in lowercase text was there before. -/
theorem mem_of_mem_lower (hc : IsSign c) (h : c ∈ lower cs) : c ∈ cs := by
  rcases mem_lower_cases h with ⟨a, ha, -, hform⟩ | ⟨-, front, back, hsigma⟩
  · exact eq_of_mem_lowerChar hc hform ▸ ha
  · have hletter := toNat_lowerSigma front back
    rw [← hsigma] at hletter
    exact absurd hc.2 (Nat.not_lt_of_le hletter)

/-! Text that is in lowercase already. -/

/-- Whether lowercase text leaves the character as it is. -/
def IsLower (c : Char) : Prop := c ≠ capitalSigma ∧ lowerChar c = [c]

theorem lowerOnto_eq_self (h : ∀ c ∈ cs, IsLower c) :
    lowerOnto before cs out = out.reverse ++ cs := by
  induction cs generalizing before out with
  | nil => simp [lowerOnto]
  | cons c cs ih =>
    obtain ⟨⟨hsigma, hchar⟩, hcs⟩ := List.forall_mem_cons.mp h
    rw [lowerOnto, if_neg hsigma, hchar, ih hcs]
    simp

theorem lower_eq_self (h : ∀ c ∈ cs, IsLower c) : lower cs = cs :=
  lowerOnto_eq_self h

end Emend.Text
