import Emend.Dictionary.WordList
import Emend.Proofs.Text.Lowercase

/-! The words of a list. They ascend, none is empty, and none holds a boundary. -/
namespace Emend.WordList
variable {w last word : String} {ws done : List String}

/-! Repeats. -/

theorem mem_dropRepeatsFrom : w ∈ dropRepeats.dropRepeatsFrom last done ws ↔
    w ∈ done ∨ w = last ∨ w ∈ ws := by
  induction ws generalizing last done with
  | nil =>
    rw [dropRepeats.dropRepeatsFrom, List.mem_reverse, List.mem_cons]
    simp [or_comm]
  | cons v ws ih =>
    rw [dropRepeats.dropRepeatsFrom, List.mem_cons]
    split
    next hv =>
      subst hv
      rw [ih]
      simp
    next =>
      rw [ih, List.mem_cons, or_comm (a := w = last), or_assoc]

theorem mem_dropRepeats : w ∈ dropRepeats ws ↔ w ∈ ws := by
  cases ws with
  | nil => exact Iff.rfl
  | cons v ws => rw [dropRepeats, mem_dropRepeatsFrom, List.mem_cons, or_iff_right List.not_mem_nil]

theorem lt_of_le_of_ne {v w : String} (hle : v ≤ w) (hne : w ≠ v) : v < w := by
  rw [← String.not_le]
  exact fun hge => hne (String.le_antisymm hge hle)

/-- What is done so far descends from the last word taken. -/
theorem ascending_dropRepeatsFrom (hdone : (last :: done).Pairwise (· > ·))
    (hws : (last :: ws).Pairwise (· ≤ ·)) :
    (dropRepeats.dropRepeatsFrom last done ws).Pairwise (· < ·) := by
  induction ws generalizing last done with
  | nil =>
    rw [dropRepeats.dropRepeatsFrom, List.pairwise_reverse]
    exact hdone
  | cons v ws ih =>
    obtain ⟨hleast, hrest⟩ := List.pairwise_cons.mp hws
    rw [dropRepeats.dropRepeatsFrom]
    split
    next hv =>
      subst hv
      exact ih hdone hrest
    next hv =>
      have hlast : last < v := lt_of_le_of_ne (hleast v List.mem_cons_self) hv
      refine ih (List.pairwise_cons.mpr ⟨fun u hu => ?_, hdone⟩) hrest
      rcases List.mem_cons.mp hu with rfl | hu
      · exact hlast
      · exact String.lt_trans ((List.pairwise_cons.mp hdone).1 u hu) hlast

theorem ascending_dropRepeats (h : ws.Pairwise (· ≤ ·)) :
    (dropRepeats ws).Pairwise (· < ·) := by
  cases ws with
  | nil => exact List.Pairwise.nil
  | cons v ws => exact ascending_dropRepeatsFrom (List.pairwise_singleton _ v) h

/-! Lists. -/

theorem mem_words : w ∈ (ofWords ws).words ↔ ∃ word ∈ ws, normalize? word = some w := by
  rw [ofWords, mem_dropRepeats, List.mem_mergeSort, List.mem_filterMap]

/-- Words come in order, each once. -/
theorem ascending_words (ws : List String) : (ofWords ws).words.Pairwise (· < ·) := by
  refine ascending_dropRepeats ?_
  have hsorted := @List.pairwise_mergeSort String (fun a b => decide (a ≤ b))
    (fun a b c hab hbc => by simpa using String.le_trans (by simpa using hab) (by simpa using hbc))
    (fun a b => by simpa using String.le_total a b) (ws.filterMap normalize?)
  simpa using hsorted

theorem isSign_boundary : Text.IsSign boundary := by
  unfold Text.IsSign
  decide

/-- A word that is kept is made of letters. -/
theorem normalize?_eq_some_iff : normalize? word = some w ↔ Text.trim word.toList ≠ [] ∧
    (∀ c ∈ Text.trim word.toList, Text.isAlphabetic c = true) ∧
      w.toList = Text.lower (Text.trim word.toList) := by
  simp only [normalize?, Option.ite_none_right_eq_some, Bool.and_eq_true, Bool.not_eq_true',
    List.isEmpty_eq_false_iff, List.all_eq_true, Option.some_inj, and_assoc]
  refine and_congr_right fun _ => and_congr_right fun _ => ?_
  constructor
  · rintro rfl
    exact String.toList_ofList
  · intro hw
    rw [← hw, String.ofList_toList]

/-- A word in lowercase has letters, and no boundary among them. -/
theorem normalize?_eq_some (h : normalize? word = some w) : w ≠ "" ∧ boundary ∉ w.toList := by
  obtain ⟨hne, halphabetic, hw⟩ := normalize?_eq_some_iff.mp h
  constructor
  · rintro rfl
    have hlength := Text.length_lower_ge (Text.trim word.toList)
    rw [← hw] at hlength
    exact hne (List.eq_nil_of_length_eq_zero (Nat.le_zero.mp hlength))
  · intro hmem
    rw [hw] at hmem
    have hfalse := halphabetic boundary (Text.mem_of_mem_lower isSign_boundary hmem)
    exact absurd hfalse (by decide)

theorem ne_empty_of_mem (h : w ∈ (ofWords ws).words) : w ≠ "" := by
  obtain ⟨word, -, hword⟩ := mem_words.mp h
  exact (normalize?_eq_some hword).1

theorem boundary_not_mem (h : w ∈ (ofWords ws).words) : boundary ∉ w.toList := by
  obtain ⟨word, -, hword⟩ := mem_words.mp h
  exact (normalize?_eq_some hword).2

end Emend.WordList
