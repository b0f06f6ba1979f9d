import Emend.Dictionary.Source
import Emend.Proofs.Edit.Parts

/-! Two readings of the boundaries of a typo. Words are compared with the typo less one boundary at
each end, and an edit is worked out on the typo without any. -/
namespace Emend

variable {typo inner rest : List Char} {before after n : Nat}

/-! One boundary less. -/

theorem drop_first (h : rest.head? ≠ some boundary) :
    (if (List.replicate n boundary ++ rest).head? == some boundary then
      (List.replicate n boundary ++ rest).tail else List.replicate n boundary ++ rest) =
      List.replicate (n - 1) boundary ++ rest := by
  cases n with
  | zero => simp [h]
  | succ n => simp [List.replicate_succ]

theorem drop_last (h : rest.getLast? ≠ some boundary) :
    (if (rest ++ List.replicate n boundary).getLast? == some boundary then
      (rest ++ List.replicate n boundary).dropLast else rest ++ List.replicate n boundary) =
      rest ++ List.replicate (n - 1) boundary := by
  cases n with
  | zero => simp [h]
  | succ n =>
    rw [List.replicate_succ', ← List.append_assoc]
    simp

theorem core_replicate (n : Nat) :
    WordList.core (List.replicate n boundary) = List.replicate (n - 2) boundary := by
  have hhead : ([] : List Char).head? ≠ some boundary := nofun
  have hend : ([] : List Char).getLast? ≠ some boundary := nofun
  have hfirst := drop_first (n := n) hhead
  have hlast := drop_last (n := n - 1) hend
  simp only [List.append_nil, List.nil_append] at hfirst hlast
  simp only [WordList.core, hfirst, hlast]
  rw [Nat.sub_sub]

namespace Edged
variable (h : Edged typo inner before after)
include h

/-- What words are compared with has all boundaries but one at each end. -/
theorem core_eq (hinner : inner ≠ []) : WordList.core typo =
    List.replicate (before - 1) boundary ++ (inner ++ List.replicate (after - 1) boundary) := by
  have hc := List.head?_eq_some_head hinner
  have hd := List.getLast?_eq_some_getLast hinner
  have hhead : (inner ++ List.replicate after boundary).head? ≠ some boundary := by
    rw [List.head?_append, hc, Option.some_or, ← hc]
    exact h.first
  have hlast : (List.replicate (before - 1) boundary ++ inner).getLast? ≠ some boundary := by
    rw [List.getLast?_append, hd, Option.some_or, ← hd]
    exact h.last
  simp only [WordList.core]
  rw [h.eq, drop_first hhead, ← List.append_assoc, drop_last hlast, List.append_assoc]

/-- More than one boundary at the start. -/
theorem doubly_first (hinner : inner ≠ []) : [boundary, boundary] <+: typo ↔ 2 ≤ before := by
  obtain ⟨c, cs, rfl⟩ := List.exists_cons_of_ne_nil hinner
  have hc : boundary ≠ c := by
    rintro rfl
    exact h.first rfl
  rw [h.eq]
  match before with
  | 0 | 1 => simp [hc]
  | n + 2 => simp [List.replicate_succ]

/-- The two readings agree if there is at most one boundary at each end. -/
theorem core_eq_iff (hinner : inner ≠ []) :
    WordList.core typo = inner ↔ before < 2 ∧ after < 2 := by
  rw [h.core_eq hinner]
  constructor
  · intro heq
    have hlength := congrArg List.length heq
    simp only [List.length_append, List.length_replicate] at hlength
    omega
  · rintro ⟨hbefore, hafter⟩
    rw [show before - 1 = 0 by omega, show after - 1 = 0 by omega]
    simp

theorem ne_boundaries (hinner : inner ≠ []) : typo ≠ [boundary, boundary] := by
  intro heq
  have hbefore := (h.doubly_first hinner).mp (heq ▸ List.prefix_refl _)
  have hlength := h.length
  have hpos := List.length_pos_iff.mpr hinner
  rw [heq, List.length_cons, List.length_singleton] at hlength
  omega

end Edged

/-- What words are compared with is what an edit is worked out on, with boundaries put around it
that one reading takes off and the other one does not. There are none, so that the readings agree,
if and only if the typo has no two boundaries at an end, or is just these two. -/
theorem core_stripped (p : Pair) :
    (∃ before after, WordList.core p.typo.toList =
      List.replicate before boundary ++ (p.stripped ++ List.replicate after boundary)) ∧
    (WordList.core p.typo.toList = p.stripped ↔ p.typo = "::" ∨
      ¬ [boundary, boundary] <+: p.typo.toList ∧ ¬ [boundary, boundary] <:+ p.typo.toList) := by
  obtain ⟨before, after, h⟩ := exists_edged p.typo.toList
  change Edged p.typo.toList p.stripped before after at h
  have htypo : p.typo = "::" ↔ p.typo.toList = [boundary, boundary] := by
    rw [← String.toList_inj]
    rfl
  rw [htypo]
  by_cases hinner : p.stripped = []
  · -- Nothing but boundaries: an edit is worked out on none of them, words on all but two.
    have hall : p.typo.toList = List.replicate (before + after) boundary := by
      simpa [hinner, List.replicate_append_replicate] using h.eq
    rw [hinner, hall, core_replicate]
    refine ⟨⟨before + after - 2, 0, by simp⟩, ?_⟩
    match before + after with
    | 0 | 1 | 2 => decide
    | n + 3 => simp [List.replicate_succ]
  · refine ⟨⟨before - 1, after - 1, h.core_eq hinner⟩, ?_⟩
    rw [h.core_eq_iff hinner, h.doubly_first hinner, h.doubly hinner,
      or_iff_right (h.ne_boundaries hinner)]
    omega

/-- The typo of a dictionary whose second boundary is part of one reading and not of the other. -/
theorem core_stripped_colon :
    VettedDictionary.ofBytes "english" "ab:: -> x\n".toUTF8.data.toList .empty 0 =
      .ok ⟨⟨"english", [⟨"ab::", "x"⟩]⟩, []⟩ ∧
    WordList.core "ab::".toList = "ab:".toList ∧
    Pair.stripped ⟨"ab::", "x"⟩ = "ab".toList ∧ Edit.screenBefore "ab::" = "ab" :=
  ⟨rfl, by decide, by decide, by decide⟩

end Emend
