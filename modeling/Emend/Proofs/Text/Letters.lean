import Emend.Proofs.Text.Lowercase
import Emend.Text.Alphabetic
import Emend.Text.Blank

/-! Letters in lowercase. They stay as they are from then on, and they are letters, but for one
capital whose dot becomes a mark of its own. -/
namespace Emend.Text
variable {a c : Char} {cs : List Char} {runs : List CaseRun} {r : CaseRun} {n low high : Nat}
  {list : List (Nat × Nat)}

/-! Runs of capitals. -/

namespace CaseRun

/-- The lowercase form of the last letter. -/
def lastImage (r : CaseRun) : Nat := r.image + (r.last - r.first)

theorem Holds.le_lastImage (h : r.Holds n) : r.image + (n - r.first) ≤ r.lastImage :=
  Nat.add_le_add_left (Nat.sub_le_sub_right h.last _) _

/-- Whether no lowercase form of `r` is a letter of the runs, which ascend. Where letters and forms
take turns, one kind is even and the other one odd. -/
def spares (r : CaseRun) : List CaseRun → Bool
  | [] => true
  | s :: rest => r.lastImage.blt s.first ||
    (s.last.blt r.image ||
      (r.step.beq 2 || r.last.beq r.first) && s.step.beq 2 && ((r.image + s.first) % 2).beq 1) &&
    r.spares rest

end CaseRun

theorem lowerPoint_of_spares (h : r.spares runs = true) (hn : r.Holds n) :
    lowerPoint runs (r.image + (n - r.first)) = r.image + (n - r.first) := by
  obtain ⟨hfirst, hlast, hstep⟩ := hn
  induction runs with
  | nil => rfl
  | cons s runs ih =>
    simp only [CaseRun.spares, CaseRun.lastImage, Bool.or_eq_true, Bool.and_eq_true,
      Nat.blt_eq, Nat.beq_eq] at h
    rw [lowerPoint]
    split
    next => rfl
    next hfirst' =>
      obtain ⟨hs, hrest⟩ := h.resolve_left (by omega)
      split
      next hlast' =>
        obtain ⟨⟨hturns, hstep'⟩, hodd⟩ := hs.resolve_left (by omega)
        rw [hstep', if_neg, ih hrest]
        rcases hturns with htwo | hone
        · rw [htwo] at hstep
          omega
        · omega
      next => exact ih hrest

-- The tests are made on numbers, not on characters, so that the kernel gets through all runs.
theorem spares_caseRuns : (caseRuns.all fun r => r.spares caseRuns) = true := by decide +kernel

/-- Lowercase forms have no lowercase forms of their own. -/
theorem lowerPoint_lowerPoint (n : Nat) :
    lowerPoint caseRuns (lowerPoint caseRuns n) = lowerPoint caseRuns n := by
  rcases lowerPoint_image caseRuns n with h | ⟨r, hr, hn, h⟩
  · rw [h, h]
  · rw [h, lowerPoint_of_spares (List.all_eq_true.mp spares_caseRuns r hr) hn]

/-! Characters. -/

theorem images_caseRuns : ∀ r ∈ caseRuns,
    (r.lastImage < 0xD800 ∨ 0xDFFF < r.image ∧ r.lastImage < 0x110000) ∧
      (r.lastImage < 0x130 ∨ 0x130 < r.image) := by decide +kernel

theorem isValidChar_lowerPoint (h : n.isValidChar) : (lowerPoint caseRuns n).isValidChar := by
  rcases lowerPoint_image caseRuns n with hsame | ⟨r, hr, hn, himage⟩
  · rwa [hsame]
  · have hlast := hn.le_lastImage
    have hvalid := (images_caseRuns r hr).1
    unfold Nat.isValidChar
    omega

theorem lowerPoint_ne_dotted (h : n ≠ 0x130) : lowerPoint caseRuns n ≠ 0x130 := by
  rcases lowerPoint_image caseRuns n with hsame | ⟨r, hr, hn, himage⟩
  · rwa [hsame]
  · have hlast := hn.le_lastImage
    have hclear := (images_caseRuns r hr).2
    omega

theorem eq_dottedCapitalI_iff : c = dottedCapitalI ↔ c.toNat = 0x130 := by
  rw [← Char.toNat_inj]
  rfl

theorem lowerChar_of_wide (hwide : ¬ a.toNat < 0x80) (ha : a ≠ dottedCapitalI) :
    ∃ b, lowerChar a = [b] ∧ b.toNat = lowerPoint caseRuns a.toNat := by
  rw [lowerChar, if_neg hwide, if_neg ha]
  exact ⟨_, rfl, toNat_ofNat_of_valid (isValidChar_lowerPoint a.valid)⟩

/-- A small letter is one that no run takes. -/
theorem toLower_of_lowerPoint : ∀ n < 0x80, lowerPoint caseRuns n = n →
    (Char.ofNat n).toLower = Char.ofNat n := by decide +kernel

theorem lowerPoint_toLower : ∀ n < 0x80, (Char.ofNat n).toLower ≠ dottedCapitalI ∧
    lowerPoint caseRuns (Char.ofNat n).toLower.toNat = (Char.ofNat n).toLower.toNat := by
  decide +kernel

/-- The mark that is left of the dot of a capital I. -/
def dotAbove : Char := '\u0307'

theorem mem_lowerChar_dotted : c ∈ lowerChar dottedCapitalI ↔ c = 'i' ∨ c = dotAbove := by
  rw [show lowerChar dottedCapitalI = ['i', dotAbove] by decide, List.mem_cons,
    List.mem_singleton]

theorem isLower_of_lowerPoint (h : lowerPoint caseRuns c.toNat = c.toNat)
    (hc : c ≠ dottedCapitalI) : IsLower c := by
  constructor
  · rintro rfl
    exact absurd h (by decide)
  · by_cases hsmall : c.toNat < 0x80
    · have hlower := toLower_of_lowerPoint c.toNat hsmall h
      rw [Char.ofNat_toNat] at hlower
      rw [lowerChar, if_pos hsmall, hlower]
    · rw [lowerChar, if_neg hsmall, if_neg hc, h, Char.ofNat_toNat]

theorem isLower_of_mem_lowerChar (h : c ∈ lowerChar a) : IsLower c := by
  by_cases hsmall : a.toNat < 0x80
  · rw [lowerChar, if_pos hsmall, List.mem_singleton] at h
    have hpoint := lowerPoint_toLower a.toNat hsmall
    rw [Char.ofNat_toNat, ← h] at hpoint
    exact isLower_of_lowerPoint hpoint.2 hpoint.1
  by_cases hdotted : a = dottedCapitalI
  · subst hdotted
    rcases mem_lowerChar_dotted.mp h with rfl | rfl <;>
      exact isLower_of_lowerPoint (by decide) (by decide)
  · obtain ⟨b, hform, hb⟩ := lowerChar_of_wide hsmall hdotted
    rw [hform, List.mem_singleton] at h
    subst h
    refine isLower_of_lowerPoint (by rw [hb, lowerPoint_lowerPoint]) ?_
    rw [Ne, eq_dottedCapitalI_iff, hb]
    exact lowerPoint_ne_dotted (mt eq_dottedCapitalI_iff.mpr hdotted)

theorem isLower_of_mem_lower (h : c ∈ lower cs) : IsLower c := by
  rcases mem_lower_cases h with ⟨a, -, -, hform⟩ | ⟨-, front, back, hsigma⟩
  · exact isLower_of_mem_lowerChar hform
  · rcases lowerSigma_cases front back with hend | hinner
    · rw [hsigma, hend]
      exact isLower_of_lowerPoint (by decide) (by decide)
    · rw [hsigma, hinner]
      exact isLower_of_lowerPoint (by decide) (by decide)

/-- Lowercase text is its own lowercase form. -/
theorem lower_lower (cs : List Char) : lower (lower cs) = lower cs :=
  lower_eq_self fun _ hc => isLower_of_mem_lower hc

/-! Letters. -/

namespace Ranges

/-- Whether one of the ranges, which ascend, has all points from `low` to `high`. -/
def spans (low high : Nat) : List (Nat × Nat) → Bool
  | [] => false
  | (first, last) :: rest => first.ble low && (high.ble last || spans low high rest)

theorem covers_of_spans (h : spans low high list = true) (hlow : low ≤ n) (hhigh : n ≤ high) :
    covers list n = true := by
  induction list with
  | nil => cases h
  | cons range list ih =>
    simp only [spans, Bool.and_eq_true, Bool.or_eq_true, Nat.ble_eq] at h
    obtain ⟨hfirst, hlast⟩ := h
    rw [covers, if_neg (by omega)]
    split
    next => rfl
    next hpast => exact ih (hlast.resolve_left (by omega))

theorem exists_of_covers (h : covers list n = true) :
    ∃ range ∈ list, range.1 ≤ n ∧ n ≤ range.2 := by
  induction list with
  | nil => cases h
  | cons range list ih =>
    rw [covers] at h
    split at h
    next => cases h
    next hfirst =>
      split at h
      next hlast => exact ⟨range, List.mem_cons_self, Nat.le_of_not_lt hfirst, hlast⟩
      next =>
        obtain ⟨other, hother, hn⟩ := ih h
        exact ⟨other, List.mem_cons_of_mem range hother, hn⟩

end Ranges

/-- The lowercase forms of all runs are letters. -/
theorem spans_alphabetics :
    (caseRuns.all fun r => Ranges.spans r.image r.lastImage alphabetics.list) = true := by
  decide +kernel

theorem covers_toLower : ∀ n < 0x80, Ranges.covers alphabetics.list n = true →
    Ranges.covers alphabetics.list (Char.ofNat n).toLower.toNat = true := by decide +kernel

theorem isAlphabetic_of_mem_lowerChar (ha : isAlphabetic a = true) (hdotted : a ≠ dottedCapitalI)
    (h : c ∈ lowerChar a) : isAlphabetic c = true := by
  unfold isAlphabetic Ranges.contains at ha ⊢
  by_cases hsmall : a.toNat < 0x80
  · rw [lowerChar, if_pos hsmall, List.mem_singleton] at h
    have hcovers := covers_toLower a.toNat hsmall ha
    rwa [Char.ofNat_toNat, ← h] at hcovers
  · obtain ⟨b, hform, hb⟩ := lowerChar_of_wide hsmall hdotted
    rw [hform, List.mem_singleton] at h
    subst h
    rw [hb]
    rcases lowerPoint_image caseRuns a.toNat with hsame | ⟨r, hr, hn, himage⟩
    · rwa [hsame]
    · rw [himage]
      exact Ranges.covers_of_spans (List.all_eq_true.mp spans_alphabetics r hr)
        (Nat.le_add_right _ _) hn.le_lastImage

/-- Letters in lowercase are letters, but for the dot of a capital I. -/
theorem isAlphabetic_of_mem_lower (hcs : ∀ a ∈ cs, isAlphabetic a = true) (h : c ∈ lower cs) :
    isAlphabetic c = true ∨ c = dotAbove ∧ dottedCapitalI ∈ cs := by
  rcases mem_lower_cases h with ⟨a, ha, -, hform⟩ | ⟨-, front, back, hsigma⟩
  · by_cases hdotted : a = dottedCapitalI
    · subst hdotted
      rcases mem_lowerChar_dotted.mp hform with rfl | rfl
      · exact Or.inl (by decide)
      · exact Or.inr ⟨rfl, ha⟩
    · exact Or.inl (isAlphabetic_of_mem_lowerChar (hcs a ha) hdotted hform)
  · refine Or.inl ?_
    rcases lowerSigma_cases front back with hend | hinner
    · rw [hsigma, hend]
      decide
    · rw [hsigma, hinner]
      decide

theorem dotAbove_mem_lower (h : dottedCapitalI ∈ cs) : dotAbove ∈ lower cs :=
  mem_lower h (by decide) (mem_lowerChar_dotted.mpr (Or.inr rfl))

theorem not_isAlphabetic_dotAbove : isAlphabetic dotAbove = false := by decide

/-! Blanks. -/

theorem blanks_apart : ∀ r ∈ blanks.list, ∀ s ∈ alphabetics.list, r.2 < s.1 ∨ s.2 < r.1 := by
  decide +kernel

theorem isBlank_of_isAlphabetic (h : isAlphabetic c = true) : isBlank c = false := by
  rw [Bool.eq_false_iff]
  intro hblank
  obtain ⟨r, hr, hfirst, hlast⟩ := Ranges.exists_of_covers hblank
  obtain ⟨s, hs, hfirst', hlast'⟩ := Ranges.exists_of_covers h
  have hapart := blanks_apart r hr s hs
  omega

theorem isBlank_dotAbove : isBlank dotAbove = false := by decide

end Emend.Text
