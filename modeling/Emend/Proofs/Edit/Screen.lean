import Emend.Dictionary.Source
import Emend.Proofs.Edit.Parts

/-! What an edit leaves on the screen. A boundary is typed with the space key and shows as a space,
while an edit is worked out on the typo as it is written. -/
namespace Emend

variable {before after : Nat} {p : Pair} {e : Edit}

/-- How a character of a typo shows. -/
def shown (c : Char) : Char := if c = boundary then ' ' else c

namespace Pair

/-- The screen when the last key of the typo is pressed. That key itself is held back. -/
def screen (p : Pair) : String := String.ofList (p.typo.toList.dropLast.map shown)

/-- The spaces that stay in front of the word, one for each boundary that begins the typo. -/
def indent (p : Pair) : String :=
  String.ofList ((p.typo.toList.takeWhile (· == boundary)).map shown)

end Pair

theorem map_shown_eq_self {s : List Char} : s.map shown = s ↔ boundary ∉ s := by
  induction s with
  | nil => simp
  | cons c s ih =>
    rw [List.map_cons, List.cons.injEq, ih, List.mem_cons, not_or, and_congr_left_iff]
    intro _
    unfold shown
    split
    next hc => simp [hc, boundary]
    next hc => simp [Ne.symm hc]

theorem toList_screen (p : Pair) : p.screen.toList = (p.typo.toList.map shown).dropLast := by
  rw [Pair.screen, String.toList_ofList, List.map_dropLast]

section
variable (h : Edit.ofPair p = .ok e) (hedged : Edged p.typo.toList p.stripped before after)
  (hcore : p.stripped ≠ [])
include h hedged hcore

/-- The key that completes the typo is not erased. It belongs to the text between the boundaries,
unless there is a boundary behind it. -/
theorem backspaces_add_kept : e.backspaces.toNat + p.kept + 1 =
    p.stripped.length + (if after = 0 then 0 else 1) := by
  obtain ⟨hbackspaces, -, -, -⟩ := Edit.ofPair_spec h
  have hexcess : p.excess = p.stripped.length - p.kept - 1 + (if after = 0 then 0 else 1) := by
    rw [Pair.excess, hedged.endsInBoundary hcore]
    by_cases hafter : after = 0 <;> simp [hafter]
  by_cases hafter : after = 0
  · rw [if_pos hafter] at hexcess ⊢
    omega
  · rw [if_neg hafter] at hexcess ⊢
    omega

/-- The characters that are not erased, and what is typed. Every boundary behind the first at the
end of the typo is one more character that is not erased. -/
theorem apply_screen_eq : e.apply p.screen = some (String.ofList
    ((p.typo.toList.map shown).take (before + (p.kept + (after - 1)))) ++ p.remainder) := by
  have hbackspaces := backspaces_add_kept h hedged hcore
  have hlength := hedged.length
  have hpos := List.length_pos_iff.mpr hcore
  have hscreen : p.screen.length = p.typo.toList.length - 1 := by
    rw [← String.length_toList, toList_screen]
    simp
  obtain ⟨-, -, hsuffix, -⟩ := Edit.ofPair_spec h
  have hstays : p.typo.toList.length - 1 - e.backspaces.toNat =
      before + (p.kept + (after - 1)) := by
    split at hbackspaces <;> omega
  have hle : e.backspaces.toNat ≤ p.screen.length := by
    split at hbackspaces <;> omega
  have hmin : min (before + (p.kept + (after - 1))) (p.typo.toList.length - 1) =
      before + (p.kept + (after - 1)) := by
    omega
  rw [Edit.apply, if_pos hle, hsuffix]
  refine congrArg some (congrArg (· ++ p.remainder) (String.toList_inj.mp ?_))
  rw [String.toList_copy_dropEnd, String.length_toList, hscreen, hstays, String.toList_ofList,
    toList_screen, List.dropLast_eq_take, List.take_take, List.length_map, hmin]

end

/-- What stays of the text between the boundaries is what the correction begins with, unless there
is more than one boundary behind it or a boundary in it. -/
theorem take_shown_iff : (p.stripped.map shown ++ List.replicate after ' ').take
    (p.kept + (after - 1)) = p.correction.toList.take p.kept ↔
      after ≤ 1 ∧ boundary ∉ p.correction.toList.take p.kept := by
  have hkept := p.kept_le
  have hshown : after ≤ 1 → (p.stripped.map shown ++ List.replicate after ' ').take
      (p.kept + (after - 1)) = (p.correction.toList.take p.kept).map shown := by
    intro hafter
    rw [Nat.sub_eq_zero_of_le hafter, Nat.add_zero, ← p.take_kept, List.map_take]
    exact List.take_append_of_le_length (by simpa using hkept.1)
  constructor
  · intro heq
    have hlength := congrArg List.length heq
    simp only [List.length_take, List.length_append, List.length_map, List.length_replicate]
      at hlength
    have hafter : after ≤ 1 := by omega
    rw [hshown hafter, map_shown_eq_self] at heq
    exact ⟨hafter, heq⟩
  · rintro ⟨hafter, hnot⟩
    rw [hshown hafter]
    exact map_shown_eq_self.mpr hnot

/-- The edit turns what is on the screen into the correction, with the spaces before the word left
in place, if the typo ends in no more than one boundary and no boundary is among the characters
that are kept. It does so for no other typo, but it never erases more than there is. -/
theorem apply_screen (h : Edit.ofPair p = .ok e) (hcore : ∃ c ∈ p.typo.toList, c ≠ boundary) :
    ∃ text, e.apply p.screen = some text ∧ (text = p.indent ++ p.correction ↔
      ¬ [boundary, boundary] <:+ p.typo.toList ∧
        boundary ∉ p.correction.toList.take p.kept) := by
  obtain ⟨before, after, hedged⟩ := exists_edged p.typo.toList
  obtain ⟨c, hc, hne⟩ := hcore
  have hcore := hedged.core_ne_nil hc hne
  refine ⟨_, apply_screen_eq h hedged hcore, ?_⟩
  have hindent : p.indent.toList = List.replicate before ' ' := by
    rw [Pair.indent, String.toList_ofList, hedged.takeWhile hcore]
    simp [shown]
  have hmap : p.typo.toList.map shown = List.replicate before ' ' ++
      (p.stripped.map shown ++ List.replicate after ' ') := by
    have hmap := congrArg (List.map shown) hedged.eq
    simpa [shown, Pair.stripped] using hmap
  rw [hedged.doubly hcore, Nat.not_le, Nat.lt_succ_iff, ← take_shown_iff, ← String.toList_inj]
  simp only [String.toList_append, String.toList_ofList, hindent, hmap, p.toList_remainder]
  have hfront (n : Nat) (word : List Char) :
      (List.replicate before ' ' ++ word).take (before + n) =
        List.replicate before ' ' ++ word.take n := by
    simp [List.take_append]
  rw [hfront, List.append_assoc, List.append_cancel_left_eq]
  have hcut := List.take_append_drop p.kept p.correction.toList
  constructor
  · intro heq
    exact List.append_cancel_right (heq.trans hcut.symm)
  · intro heq
    rw [heq, hcut]

theorem apply_screen_thier : ∃ e, Edit.ofPair ⟨":thier:", "their"⟩ = .ok e ∧
    (∃ c ∈ ":thier:".toList, c ≠ boundary) ∧
    e.apply (Pair.screen ⟨":thier:", "their"⟩) = some " their" := by
  have hcore : ∃ c ∈ ":thier:".toList, c ≠ boundary := ⟨'t', by decide, by decide⟩
  have h : Edit.ofPair ⟨":thier:", "their"⟩ = .ok ⟨3, "eir"⟩ :=
    Edit.ofPair_eq_ok.mpr ⟨by decide +kernel, by decide +kernel, by decide +kernel⟩
  obtain ⟨text, happly, htext⟩ := apply_screen h hcore
  refine ⟨_, h, hcore, ?_⟩
  rw [happly, htext.mpr (by decide +kernel)]
  decide +kernel

/-- Two typos of a dictionary that go wrong. The space behind `ab` is erased in place of the `a`,
and the space between `a` and `b` stays in place of the colon of the correction. -/
theorem apply_screen_colon :
    VettedDictionary.ofBytes "english" "ab:: -> x\na:b -> a:c\n".toUTF8.data.toList .empty 0 =
      .ok ⟨⟨"english", [⟨"ab::", "x"⟩, ⟨"a:b", "a:c"⟩]⟩, []⟩ ∧
    (∃ e, Edit.ofPair ⟨"ab::", "x"⟩ = .ok e ∧
      e.apply (Pair.screen ⟨"ab::", "x"⟩) = some "ax" ∧
      Pair.indent ⟨"ab::", "x"⟩ ++ "x" = "x") ∧
    ∃ e, Edit.ofPair ⟨"a:b", "a:c"⟩ = .ok e ∧
      e.apply (Pair.screen ⟨"a:b", "a:c"⟩) = some "a c" ∧
      Pair.indent ⟨"a:b", "a:c"⟩ ++ "a:c" = "a:c" := by
  refine ⟨rfl, ⟨⟨2, "x"⟩, ?_, by decide +kernel, by decide +kernel⟩,
    ⟨0, "c"⟩, ?_, by decide +kernel, by decide +kernel⟩
  · exact Edit.ofPair_eq_ok.mpr ⟨by decide +kernel, by decide +kernel, by decide +kernel⟩
  · exact Edit.ofPair_eq_ok.mpr ⟨by decide +kernel, by decide +kernel, by decide +kernel⟩

end Emend
