import Emend.Proofs.Dictionary.Acceptance
import Emend.Proofs.Dictionary.WordList

/-! The words that a typo fires on. Between two boundaries a word is what is typed of it, from the
space before it to the space behind it; the typo fires if it occurs there. -/
namespace Emend

section Framed
variable {α : Type} {b : α} {cs w : List α}

/-! A text with the same character at both ends and not between. -/

theorem cons_suffix_concat (hw : b ∉ w) : b :: cs <:+ w ++ [b] ↔ cs = [] := by
  rw [List.suffix_concat_iff]
  constructor
  · rintro (h | ⟨t, ht, hsuffix⟩)
    · cases h
    · cases t with
      | nil => exact (List.cons.inj ht).2
      | cons c t =>
        obtain ⟨rfl, -⟩ := List.cons.inj ht
        exact (hw (hsuffix.subset List.mem_cons_self)).elim
  · rintro rfl
    exact Or.inr ⟨[], rfl, List.nil_suffix⟩

theorem not_infix_of_mem (hw : b ∉ w) (hcs : b ∈ cs) : ¬ cs <:+: w :=
  fun h => hw (h.subset hcs)

theorem not_prefix_of_head (hne : cs ≠ []) (hhead : cs.head? ≠ some b) : ¬ cs <+: b :: w := by
  rintro ⟨rest, hrest⟩
  cases cs with
  | nil => exact hne rfl
  | cons c cs =>
    obtain ⟨rfl, -⟩ := List.cons.inj hrest
    exact hhead rfl

theorem not_suffix_of_last (hne : cs ≠ []) (hlast : cs.getLast? ≠ some b) :
    ¬ cs <:+ w ++ [b] := by
  rw [List.suffix_concat_iff]
  rintro (h | ⟨t, rfl, -⟩)
  · exact hne h
  · exact hlast List.getLast?_concat

theorem infix_framed : cs <:+: b :: (w ++ [b]) ↔
    cs <+: b :: (w ++ [b]) ∨ cs <:+ w ++ [b] ∨ cs <:+: w := by
  rw [List.infix_cons_iff, List.infix_concat_iff]

/-- Tied to both ends. -/
theorem framed_infix_framed (hw : b ∉ w) : b :: (cs ++ [b]) <:+: b :: (w ++ [b]) ↔ cs = w := by
  rw [infix_framed, List.cons_prefix_cons, List.prefix_concat_iff, cons_suffix_concat hw]
  have hno : ¬ cs ++ [b] <+: w := fun h => not_infix_of_mem hw (by simp) h.isInfix
  simp [hno, not_infix_of_mem hw]

/-- Tied to the start. -/
theorem cons_infix_framed (hw : b ∉ w) (hne : cs ≠ []) (hlast : cs.getLast? ≠ some b) :
    b :: cs <:+: b :: (w ++ [b]) ↔ cs <+: w := by
  rw [infix_framed, List.cons_prefix_cons, List.prefix_concat_iff, cons_suffix_concat hw]
  have hwhole : cs ≠ w ++ [b] := fun h => hlast (by rw [h, List.getLast?_concat])
  simp [hwhole, hne, not_infix_of_mem hw]

/-- Tied to the end. -/
theorem concat_infix_framed (hw : b ∉ w) (hne : cs ≠ []) (hhead : cs.head? ≠ some b) :
    cs ++ [b] <:+: b :: (w ++ [b]) ↔ cs <:+ w := by
  have hno : ¬ cs ++ [b] <+: b :: (w ++ [b]) := by
    obtain ⟨c, cs, rfl⟩ := List.exists_cons_of_ne_nil hne
    exact not_prefix_of_head (List.cons_ne_nil c _) hhead
  have hsuffix : cs ++ [b] <:+ w ++ [b] ↔ cs <:+ w := by
    rw [List.suffix_concat_iff]
    simp
  rw [infix_framed, hsuffix]
  simp [hno, not_infix_of_mem hw]

/-- Free. -/
theorem infix_framed_of_ends (hhead : cs.head? ≠ some b) (hlast : cs.getLast? ≠ some b) :
    cs <:+: b :: (w ++ [b]) ↔ cs <:+: w := by
  by_cases hne : cs = []
  · simp [hne]
  · rw [infix_framed]
    simp [not_prefix_of_head hne hhead, not_suffix_of_last hne hlast]

end Framed

/-- The word that a collision is about. A typo that is a word has it between its two boundaries. -/
def Collision.word (typo : String) : Collision → String
  | .isWord => String.ofList typo.toList.tail.dropLast
  | .firesOn word => word

namespace WordList
variable {l : WordList} {typo w : String} {cs : List Char}

/-- The words that are told of. -/
def told (l : WordList) (typo : String) : List String :=
  (l.collisions typo).map (Collision.word typo)

/-- A typo other than a lone boundary is tied to both ends of a word, to one of them, or to none. -/
theorem tied_cases (hne : cs ≠ [boundary]) :
    (∃ ds, cs = boundary :: (ds ++ [boundary])) ∨
    (∃ ds, cs = boundary :: ds ∧ ds ≠ [] ∧ ds.getLast? ≠ some boundary) ∨
    (∃ ds, cs = ds ++ [boundary] ∧ ds ≠ [] ∧ ds.head? ≠ some boundary) ∨
    cs.head? ≠ some boundary ∧ cs.getLast? ≠ some boundary := by
  by_cases hhead : cs.head? = some boundary
  · obtain ⟨ds, rfl⟩ := List.head?_eq_some_iff.mp hhead
    have hds : ds ≠ [] := fun h => hne (by rw [h])
    by_cases hlast : ds.getLast? = some boundary
    · obtain ⟨es, rfl⟩ := List.getLast?_eq_some_iff.mp hlast
      exact Or.inl ⟨es, rfl⟩
    · exact Or.inr (Or.inl ⟨ds, rfl, hds, hlast⟩)
  · by_cases hlast : cs.getLast? = some boundary
    · obtain ⟨ds, rfl⟩ := List.getLast?_eq_some_iff.mp hlast
      have hds : ds ≠ [] := by
        rintro rfl
        exact hhead rfl
      refine Or.inr (Or.inr (Or.inl ⟨ds, rfl, hds, fun h => hhead ?_⟩))
      rw [List.head?_append, h]
      rfl
    · exact Or.inr (Or.inr (Or.inr ⟨hhead, hlast⟩))

theorem map_word_firing (typo : String) (p : String → Bool) :
    (l.firing p).map (Collision.word typo) = l.words.filter p := by
  rw [firing, List.map_map]
  exact List.map_id _

theorem told_both (h : typo.toList = boundary :: (cs ++ [boundary])) :
    l.told typo = if String.ofList cs ∈ l.words then [String.ofList cs] else [] := by
  have hstart : (typo.toList.head? == some boundary) = true := by simp [h]
  have hend : (typo.toList.getLast? == some boundary) = true := by
    rw [h, ← List.cons_append, List.getLast?_concat, beq_self_eq_true]
  have hcore : core typo.toList = cs := by simp [h, core]
  rw [told]
  simp only [collisions, hstart, hend, hcore, contains]
  by_cases hmem : String.ofList cs ∈ l.words <;> simp [hmem, Collision.word, h]

theorem told_start (h : typo.toList = boundary :: cs) (hne : cs ≠ [])
    (hlast : cs.getLast? ≠ some boundary) :
    l.told typo = l.words.filter fun w => cs.isPrefixOf w.toList := by
  have hstart : (typo.toList.head? == some boundary) = true := by simp [h]
  have hend : (typo.toList.getLast? == some boundary) = false := by
    rw [h, List.getLast?_cons_of_ne_nil hne, beq_false_of_ne hlast]
  have hcore : core typo.toList = cs := by simp [h, core, hlast]
  rw [told, ← map_word_firing typo]
  simp only [collisions, hstart, hend, hcore]

theorem told_end (h : typo.toList = cs ++ [boundary]) (hne : cs ≠ [])
    (hhead : cs.head? ≠ some boundary) :
    l.told typo = l.words.filter fun w => cs.isSuffixOf w.toList := by
  have hstart : (typo.toList.head? == some boundary) = false := by
    obtain ⟨c, cs, rfl⟩ := List.exists_cons_of_ne_nil hne
    rw [h]
    exact beq_false_of_ne hhead
  have hend : (typo.toList.getLast? == some boundary) = true := by simp [h]
  have hcore : core typo.toList = cs := by
    rw [core, hstart, h]
    simp
  rw [told, ← map_word_firing typo]
  simp only [collisions, hstart, hend, hcore]

theorem told_free (hhead : typo.toList.head? ≠ some boundary)
    (hlast : typo.toList.getLast? ≠ some boundary) :
    l.told typo = l.words.filter fun w => Text.occursIn typo.toList w.toList := by
  have hstart := beq_false_of_ne hhead
  have hend := beq_false_of_ne hlast
  have hcore : core typo.toList = typo.toList := by simp [core, hhead, hlast]
  rw [told, ← map_word_firing typo]
  simp only [collisions, hstart, hend, hcore]

/-- What is told of are the words that the typo occurs in, if boundaries are put around them. -/
theorem mem_told (hl : ∀ w ∈ l.words, boundary ∉ w.toList) (hne : typo.toList ≠ [boundary]) :
    w ∈ l.told typo ↔
      w ∈ l.words ∧ typo.toList <:+: boundary :: (w.toList ++ [boundary]) := by
  rcases tied_cases hne with ⟨cs, h⟩ | ⟨cs, h, hcs, hlast⟩ | ⟨cs, h, hcs, hhead⟩ | ⟨hhead, hlast⟩
  · rw [told_both h, h]
    constructor
    · intro hw
      split at hw
      next hmem =>
        rw [List.mem_singleton.mp hw]
        refine ⟨hmem, (framed_infix_framed (hl _ hmem)).mpr ?_⟩
        rw [String.toList_ofList]
      next => cases hw
    · rintro ⟨hw, hinfix⟩
      rw [(framed_infix_framed (hl w hw)).mp hinfix, String.ofList_toList, if_pos hw]
      exact List.mem_singleton_self w
  · rw [told_start h hcs hlast, List.mem_filter, List.isPrefixOf_iff_prefix, h]
    exact and_congr_right fun hw => (cons_infix_framed (hl w hw) hcs hlast).symm
  · rw [told_end h hcs hhead, List.mem_filter, List.isSuffixOf_iff_suffix, h]
    exact and_congr_right fun hw => (concat_infix_framed (hl w hw) hcs hhead).symm
  · rw [told_free hhead hlast, List.mem_filter, Text.occursIn_iff, infix_framed_of_ends hhead hlast]

theorem told_sublist (hne : typo.toList ≠ [boundary]) : (l.told typo).Sublist l.words := by
  rcases tied_cases hne with ⟨cs, h⟩ | ⟨cs, h, hcs, hlast⟩ | ⟨cs, h, hcs, hhead⟩ | ⟨hhead, hlast⟩
  · rw [told_both h]
    split
    next hmem => exact List.singleton_sublist.mpr hmem
    next => exact List.nil_sublist _
  · rw [told_start h hcs hlast]
    exact List.filter_sublist
  · rw [told_end h hcs hhead]
    exact List.filter_sublist
  · rw [told_free hhead hlast]
    exact List.filter_sublist

/-- A typo is told to collide with exactly the words that it occurs in, the space before a word and
the one behind it included. They come in order, each once. A lone boundary, which occurs around
every word, collides with none. -/
theorem collisions_exact (ws : List String) :
    (∀ typo, typo ≠ ":" →
      (∀ w, w ∈ ((ofWords ws).collisions typo).map (Collision.word typo) ↔
        w ∈ (ofWords ws).words ∧ typo.toList <:+: (":" ++ w ++ ":").toList) ∧
      (((ofWords ws).collisions typo).map (Collision.word typo)).Pairwise (· < ·)) ∧
    (ofWords ws).collisions ":" = [] := by
  refine ⟨fun typo htypo => ?_, ?_⟩
  · have hne : typo.toList ≠ [boundary] := fun h => htypo (String.toList_inj.mp h)
    refine ⟨fun w => ?_, (ascending_words ws).sublist (told_sublist hne)⟩
    have hframed : (":" ++ w ++ ":").toList = boundary :: (w.toList ++ [boundary]) := by
      simp [boundary]
    rw [hframed]
    exact mem_told (fun w hw => boundary_not_mem hw) hne
  · have hno : ¬ (ofWords ws).contains "" = true := by
      rw [contains, List.contains_iff_mem]
      exact fun h => ne_empty_of_mem h rfl
    exact if_neg hno

/-- `THE` is told of in lowercase. Two boundaries next to each other are never typed in a word. -/
theorem collisions_exact_the :
    ":the" ≠ ":" ∧
    "their" ∈ ((ofWords ["their", "THE", "it's"]).collisions ":the").map (Collision.word ":the") ∧
    "the" ∈ ((ofWords ["their", "THE", "it's"]).collisions ":the:").map (Collision.word ":the:") ∧
    "the" ∉
      ((ofWords ["their", "THE", "it's"]).collisions "the::").map (Collision.word "the::") := by
  obtain ⟨hcollisions, -⟩ := collisions_exact ["their", "THE", "it's"]
  have htheir : "their" ∈ (ofWords ["their", "THE", "it's"]).words :=
    mem_words.mpr ⟨"their", by decide, by decide +kernel⟩
  have hthe : "the" ∈ (ofWords ["their", "THE", "it's"]).words :=
    mem_words.mpr ⟨"THE", by decide, by decide +kernel⟩
  refine ⟨by decide, ?_, ?_, fun h => ?_⟩
  · exact ((hcollisions ":the" (by decide)).1 "their").mpr
      ⟨htheir, Text.occursIn_iff.mp (by decide)⟩
  · exact ((hcollisions ":the:" (by decide)).1 "the").mpr ⟨hthe, Text.occursIn_iff.mp (by decide)⟩
  · obtain ⟨-, hinfix⟩ := ((hcollisions "the::" (by decide)).1 "the").mp h
    exact absurd (Text.occursIn_iff.mpr hinfix) (by decide)

end WordList
end Emend
