import Emend.Proofs.Dictionary.WordList
import Emend.Proofs.Text.Letters
import Emend.Proofs.Text.Trim
import Mathlib.Data.List.Basic

/-! The words that a list keeps. They are in lowercase, and another list made from them keeps those
that consist of letters: all of them, unless a capital I has left its dot. -/
namespace Emend.WordList
variable {w last word : String} {ws done : List String}

/-! Lists in order. -/

theorem dropRepeatsFrom_of_ascending (h : (last :: ws).Pairwise (· < ·)) :
    dropRepeats.dropRepeatsFrom last done ws = done.reverse ++ last :: ws := by
  induction ws generalizing last done with
  | nil => rw [dropRepeats.dropRepeatsFrom, List.reverse_cons]
  | cons v ws ih =>
    obtain ⟨hlast, hrest⟩ := List.pairwise_cons.mp h
    have hne : v ≠ last := (String.ne_of_lt (hlast v List.mem_cons_self)).symm
    rw [dropRepeats.dropRepeatsFrom, if_neg hne, ih hrest, List.reverse_cons, List.append_assoc]
    rfl

theorem dropRepeats_of_ascending (h : ws.Pairwise (· < ·)) : dropRepeats ws = ws := by
  cases ws with
  | nil => rfl
  | cons v ws => rw [dropRepeats, dropRepeatsFrom_of_ascending h, List.reverse_nil, List.nil_append]

theorem ofWords_of_ascending (h : (ws.filterMap normalize?).Pairwise (· < ·)) :
    ofWords ws = ⟨ws.filterMap normalize?⟩ := by
  rw [ofWords, List.mergeSort_of_pairwise, dropRepeats_of_ascending h]
  exact h.imp fun hlt => decide_eq_true (String.not_lt.mp (String.lt_asymm hlt))

/-! Words. -/

/-- Whether a word has no characters but letters. -/
def isSpelled (w : String) : Bool := w.toList.all Text.isAlphabetic

theorem lower_of_normalize? (h : normalize? word = some w) :
    Text.lower w.toList = w.toList := by
  obtain ⟨-, -, hw⟩ := normalize?_eq_some_iff.mp h
  rw [hw, Text.lower_lower]

theorem letter_of_normalize? {c : Char} (h : normalize? word = some w) (hc : c ∈ w.toList) :
    Text.isAlphabetic c = true ∨ c = Text.dotAbove := by
  obtain ⟨-, halphabetic, hw⟩ := normalize?_eq_some_iff.mp h
  rw [hw] at hc
  exact (Text.isAlphabetic_of_mem_lower halphabetic hc).imp_right And.left

/-- Only the dot of a capital I is left as no letter. -/
theorem isSpelled_iff_of_normalize? (h : normalize? word = some w) :
    isSpelled w = true ↔ Text.dottedCapitalI ∉ word.toList := by
  obtain ⟨-, halphabetic, hw⟩ := normalize?_eq_some_iff.mp h
  rw [isSpelled, List.all_eq_true, hw, ← Text.mem_trim (c := Text.dottedCapitalI) (by decide)]
  constructor
  · intro hall hdotted
    have hdot := hall _ (Text.dotAbove_mem_lower hdotted)
    rw [Text.not_isAlphabetic_dotAbove] at hdot
    cases hdot
  · intro hdotted c hc
    exact (Text.isAlphabetic_of_mem_lower halphabetic hc).resolve_right fun h => hdotted h.2

theorem trim_of_normalize? (h : normalize? word = some w) : Text.trim w.toList = w.toList := by
  have hblank : ∀ c ∈ w.toList, Text.isBlank c = false := by
    intro c hc
    rcases letter_of_normalize? h hc with halphabetic | rfl
    · exact Text.isBlank_of_isAlphabetic halphabetic
    · exact Text.isBlank_dotAbove
  exact Text.trim_eq_self
    ⟨fun c hc => hblank c (List.mem_of_head? hc), fun c hc => hblank c (List.mem_of_getLast? hc)⟩

/-- A word that was kept is kept as it is or, if it holds a dot, no more. -/
theorem normalize?_of_normalize? (h : normalize? word = some w) :
    normalize? w = if isSpelled w then some w else none := by
  split
  next hspelled =>
    rw [normalize?_eq_some_iff, trim_of_normalize? h, lower_of_normalize? h]
    refine ⟨?_, List.all_eq_true.mp hspelled, rfl⟩
    exact mt String.toList_eq_nil_iff.mp (normalize?_eq_some h).1
  next hspelled =>
    rw [Option.eq_none_iff_forall_ne_some]
    intro v hv
    obtain ⟨-, halphabetic, -⟩ := normalize?_eq_some_iff.mp hv
    rw [trim_of_normalize? h] at halphabetic
    exact hspelled (List.all_eq_true.mpr halphabetic)

/-! Lists made again. -/

theorem ofWords_words (ws : List String) :
    ofWords (ofWords ws).words = ⟨(ofWords ws).words.filter isSpelled⟩ := by
  have hkept : (ofWords ws).words.filterMap normalize? = (ofWords ws).words.filter isSpelled := by
    rw [← List.filterMap_eq_filter]
    refine List.filterMap_congr fun w hw => ?_
    obtain ⟨word, -, hword⟩ := mem_words.mp hw
    rw [normalize?_of_normalize? hword]
    rfl
  rw [ofWords_of_ascending, hkept]
  rw [hkept]
  exact (ascending_words ws).sublist List.filter_sublist

theorem isSpelled_words_iff (ws : List String) :
    (∀ w ∈ (ofWords ws).words, isSpelled w = true) ↔
      ∀ word ∈ ws, (normalize? word).isSome = true → Text.dottedCapitalI ∉ word.toList := by
  constructor
  · intro hspelled word hword hsome
    obtain ⟨w, hw⟩ := Option.isSome_iff_exists.mp hsome
    exact (isSpelled_iff_of_normalize? hw).mp (hspelled w (mem_words.mpr ⟨word, hword, hw⟩))
  · intro hdotted w hw
    obtain ⟨word, hword, hkept⟩ := mem_words.mp hw
    exact (isSpelled_iff_of_normalize? hkept).mpr (hdotted word hword (by rw [hkept]; rfl))

/-- Every word of a list is in lowercase, and its characters are letters but for dots left by
capitals. A list made again from the words of another one has those of letters only. So all words
consist of letters, and the list stays the same, if and only if no entry that was kept has a
capital I with a dot. -/
theorem ofWords_again (ws : List String) :
    (∀ w ∈ (ofWords ws).words, Text.lower w.toList = w.toList ∧
      ∀ c ∈ w.toList, Text.isAlphabetic c = true ∨ c = Text.dotAbove) ∧
    (ofWords (ofWords ws).words).words = (ofWords ws).words.filter isSpelled ∧
    ((∀ w ∈ (ofWords ws).words, isSpelled w = true) ↔
      ∀ word ∈ ws, (normalize? word).isSome = true → Text.dottedCapitalI ∉ word.toList) ∧
    (ofWords (ofWords ws).words = ofWords ws ↔
      ∀ word ∈ ws, (normalize? word).isSome = true → Text.dottedCapitalI ∉ word.toList) := by
  refine ⟨fun w hw => ?_, by rw [ofWords_words], isSpelled_words_iff ws, ?_⟩
  · obtain ⟨word, -, hword⟩ := mem_words.mp hw
    exact ⟨lower_of_normalize? hword, fun c hc => letter_of_normalize? hword hc⟩
  · rw [← isSpelled_words_iff, ofWords_words, ← List.filter_eq_self]
    exact ⟨fun h => congrArg words h, fun h => congrArg WordList.mk h⟩

theorem ofWords_again_fallback : ofWords fallback.words = fallback :=
  (ofWords_again _).2.2.2.mpr (by decide)

/-- The dot is left, and the word with it is dropped the next time. -/
theorem ofWords_again_dotted : (ofWords ["\u0130"]).words = ["i\u0307"] ∧
    isSpelled "i\u0307" = false ∧ (ofWords ["i\u0307"]).words = [] := by
  have hword : normalize? "\u0130" = some "i\u0307" := by decide
  have hdot : normalize? "i\u0307" = none := by decide
  refine ⟨?_, by decide, ?_⟩
  · rw [ofWords, List.filterMap_cons_some hword]
    simp [dropRepeats, dropRepeats.dropRepeatsFrom]
  · rw [ofWords, List.filterMap_cons_none hdot]
    simp [dropRepeats]

end Emend.WordList
