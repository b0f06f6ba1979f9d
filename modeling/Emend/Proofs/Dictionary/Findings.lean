import Emend.Proofs.Dictionary.Collision
import Emend.Proofs.Dictionary.Grammar
import Emend.Proofs.Dictionary.Warnings

/-! The warnings of a dictionary, line by line. None is lost, told twice or out of order, since each
line is numbered and adds its own behind those of the lines before it. -/
namespace Emend

def Warning.isDuplicate : Warning → Bool
  | .duplicate _ _ => true
  | _ => false

variable {words : WordList} {least n : Nat} {w : Warning} {l : Line} {before after ls : List Line}

/-! One line. -/

theorem Acceptance.line_of_mem_findings (h : w ∈ findings words least l) : w.line = l.number := by
  rcases List.mem_append.mp h with h | h
  · split at h
    next =>
      rw [List.mem_singleton.mp h]
      rfl
    next => cases h
  · obtain ⟨c, -, rfl⟩ := List.mem_map.mp h
    cases c <;> rfl

theorem Acceptance.countP_isDuplicate_findings (l : Line) :
    (findings words least l).countP Warning.isDuplicate = 0 := by
  rw [List.countP_eq_zero]
  intro w hw hdup
  cases w with
  | duplicate n typo => exact duplicate_not_mem_findings n typo l hw
  | short => cases hdup
  | isWord => cases hdup
  | firesOn => cases hdup

namespace Line

theorem line_of_mem_warnings (h : w ∈ l.warnings words least before) : w.line = l.number := by
  unfold warnings at h
  split at h
  next =>
    rw [List.mem_singleton.mp h]
    rfl
  next => exact Acceptance.line_of_mem_findings h

theorem filter_warnings_self :
    (l.warnings words least before).filter (·.line = l.number) = l.warnings words least before := by
  rw [List.filter_eq_self]
  intro w hw
  exact decide_eq_true (line_of_mem_warnings hw)

theorem filter_warnings_of_ne (h : l.number ≠ n) :
    (l.warnings words least before).filter (·.line = n) = [] := by
  rw [List.filter_eq_nil_iff]
  intro w hw hn
  exact h ((line_of_mem_warnings hw).symm.trans (of_decide_eq_true hn))

/-! All lines. -/

theorem exists_line_of_mem_raised (h : w ∈ raised words least ls) :
    ∃ l ∈ ls, w.line = l.number := by
  obtain ⟨⟨l, i⟩, hl, hw⟩ := List.mem_flatMap.mp h
  exact ⟨l, List.fst_mem_of_mem_zipIdx hl, line_of_mem_warnings hw⟩

theorem pairwise_raised (h : ls.Pairwise fun k l => k.number < l.number) :
    (raised words least ls).Pairwise fun v w => v.line ≤ w.line := by
  induction ls using List.reverseRecOn with
  | nil => exact List.Pairwise.nil
  | append_singleton ls l ih =>
    obtain ⟨hls, -, hl⟩ := List.pairwise_append.mp h
    rw [raised_append_singleton]
    refine List.pairwise_append.mpr ⟨ih hls, ?_, fun v hv w hw => ?_⟩
    · refine List.pairwise_of_forall_mem_list fun v hv w hw => ?_
      rw [line_of_mem_warnings hv, line_of_mem_warnings hw]
    · obtain ⟨k, hk, hvk⟩ := exists_line_of_mem_raised hv
      rw [hvk, line_of_mem_warnings hw]
      exact Nat.le_of_lt (hl k hk l (List.mem_singleton_self l))

/-- Of all warnings, those with the number of a line are the ones that this line has raised. -/
theorem filter_raised (h : (before ++ l :: after).Pairwise fun k l => k.number < l.number) :
    (raised words least (before ++ l :: after)).filter (·.line = l.number) =
      l.warnings words least before := by
  induction after using List.reverseRecOn with
  | nil =>
    obtain ⟨-, -, hbefore⟩ := List.pairwise_append.mp h
    have hnone : (raised words least before).filter (·.line = l.number) = [] := by
      rw [List.filter_eq_nil_iff]
      intro w hw hn
      obtain ⟨k, hk, hwk⟩ := exists_line_of_mem_raised hw
      have hlt := hbefore k hk l List.mem_cons_self
      have heq := of_decide_eq_true hn
      omega
    rw [raised_append_singleton, List.filter_append, hnone, filter_warnings_self, List.nil_append]
  | append_singleton after m ih =>
    rw [← List.cons_append, ← List.append_assoc] at h ⊢
    obtain ⟨hfront, -, hm⟩ := List.pairwise_append.mp h
    have hlt := hm l (List.mem_append_right before List.mem_cons_self) m (List.mem_singleton_self m)
    rw [raised_append_singleton, List.filter_append, ih hfront,
      filter_warnings_of_ne (Nat.ne_of_gt hlt), List.append_nil]

/-- Each line gives a pair or is told to be a repetition. -/
theorem length_firsts_add (ls : List Line) : (firsts ls).length +
    (raised words least ls).countP Warning.isDuplicate = ls.length := by
  induction ls using List.reverseRecOn with
  | nil => rfl
  | append_singleton ls l ih =>
    rw [firsts_append_singleton, raised_append_singleton, List.length_append, List.length_append,
      List.countP_append, ← ih, warnings]
    split
    next => simp [Warning.isDuplicate, Nat.add_assoc]
    next => simp [Acceptance.countP_isDuplicate_findings, Nat.add_right_comm]

theorem mem_firsts_of_new (h : l.typo ∉ before.map typo) : l ∈ firsts (before ++ l :: after) := by
  induction after using List.reverseRecOn with
  | nil =>
    rw [firsts_append_singleton, if_neg h]
    exact List.mem_append_right _ (List.mem_singleton_self l)
  | append_singleton after m ih =>
    rw [← List.cons_append, ← List.append_assoc, firsts_append_singleton]
    exact List.mem_append_left _ ih

end Line

/-- No typo collides twice with the same word. -/
theorem WordList.nodup_collisions (ws : List String) (typo : String) :
    ((ofWords ws).collisions typo).Nodup := by
  by_cases hne : typo.toList = [boundary]
  · obtain rfl : typo = ":" := String.toList_inj.mp hne
    change (if (ofWords ws).contains "" = true then [Collision.isWord] else []).Nodup
    split
    next => exact List.pairwise_singleton _ _
    next => exact List.nodup_nil
  · have htold := (ascending_words ws).sublist (told_sublist (l := ofWords ws) hne)
    exact htold.of_map _ fun c d hlt heq => String.lt_irrefl _ (heq ▸ hlt)

/-- The warnings come in the order of the lines. A line whose typo is on an earlier line is told to
repeat it, and nothing else is told of it. Any other line gives its pair, and what is told of it is
that the typo is short, if it is, and each word that it collides with. So each line is counted once,
among the pairs or among the repetitions. -/
theorem VettedDictionary.warnings_exact {name : String} {source : List UInt8}
    {d : VettedDictionary} (h : ofBytes name source words least = .ok d) :
    ∃ ls, Line.parseAll source = .ok ls ∧
      d.warnings.Pairwise (fun v w => v.line ≤ w.line) ∧
      (∀ w ∈ d.warnings, ∃ l ∈ ls, w.line = l.number) ∧
      (∀ before l after, ls = before ++ l :: after →
        (l.typo ∈ before.map Line.typo →
          d.warnings.filter (·.line = l.number) = [.duplicate l.number l.typo]) ∧
        (l.typo ∉ before.map Line.typo → l.pair ∈ d.dictionary.pairs ∧
          d.warnings.filter (·.line = l.number) =
            (if l.typo.length < least then [.short l.number l.typo least] else []) ++
              (words.collisions l.typo).map (Acceptance.collisionWarning l.number l.typo) ∧
          (d.warnings.filter (·.line = l.number)).countP Warning.isDuplicate = 0)) ∧
      (∀ ws, words = .ofWords ws → ∀ typo, (words.collisions typo).Nodup) ∧
      d.dictionary.pairs.length + d.warnings.countP Warning.isDuplicate = ls.length := by
  obtain ⟨ls, hparse, haccept, -⟩ := ofBytes_eq_ok.mp h
  obtain ⟨found, hsays, hls⟩ := Line.parseAll_eq_ok.mp hparse
  have hasc : ls.Pairwise fun k l => k.number < l.number := hls ▸ hsays.ascending
  obtain ⟨-, hpairs⟩ := accept_eq_ok haccept
  rw [warnings_of_accept haccept, hpairs, List.length_map]
  refine ⟨ls, hparse, Line.pairwise_raised hasc, fun w => Line.exists_line_of_mem_raised,
    ?_, ?_, Line.length_firsts_add ls⟩
  · rintro before l after rfl
    rw [Line.filter_raised hasc, Line.warnings]
    refine ⟨fun hold => if_pos hold, fun hnew => ?_⟩
    rw [if_neg hnew]
    exact ⟨List.mem_map_of_mem (Line.mem_firsts_of_new hnew), rfl,
      Acceptance.countP_isDuplicate_findings l⟩
  · rintro ws rfl typo
    exact WordList.nodup_collisions ws typo

/-- A correct word, a short typo that fires on another one, and the short typo once more. -/
theorem VettedDictionary.warnings_exact_heis : ∃ d,
    ofBytes "english" (Text.utf8 ":their: -> they're\nheis -> his\n# note\nheis -> hi\n")
      ⟨["heist", "their", "theirs"]⟩ 5 = .ok d ∧
    d.warnings.filter (·.line = 1) = [.isWord 1 ":their:"] ∧
    d.warnings.filter (·.line = 2) = [.short 2 "heis" 5, .firesOn 2 "heis" "heist"] ∧
    d.warnings.filter (·.line = 4) = [.duplicate 4 "heis"] ∧
    d.dictionary.pairs.length + d.warnings.countP Warning.isDuplicate = 3 := by
  have hread : ofBytes "english"
      (Text.utf8 ":their: -> they're\nheis -> his\n# note\nheis -> hi\n")
      ⟨["heist", "their", "theirs"]⟩ 5 =
        .ok ⟨⟨"english", [⟨":their:", "they're"⟩, ⟨"heis", "his"⟩]⟩, [.isWord 1 ":their:",
          .short 2 "heis" 5, .firesOn 2 "heis" "heist", .duplicate 4 "heis"]⟩ := rfl
  obtain ⟨ls, hparse, -, -, hlines, -, hlength⟩ := warnings_exact hread
  obtain rfl : ls = [⟨1, ":their:", "they're"⟩, ⟨2, "heis", "his"⟩, ⟨4, "heis", "hi"⟩] := by
    have hok : Line.parseAll
        (Text.utf8 ":their: -> they're\nheis -> his\n# note\nheis -> hi\n") =
          .ok [⟨1, ":their:", "they're"⟩, ⟨2, "heis", "his"⟩, ⟨4, "heis", "hi"⟩] := rfl
    rw [hok] at hparse
    exact (Except.ok.inj hparse).symm
  refine ⟨_, hread, ?_, ?_, ?_, hlength⟩
  · exact ((hlines [] _ _ rfl).2 (by decide)).2.1.trans (by decide +kernel)
  · exact ((hlines [_] _ _ rfl).2 (by decide)).2.1.trans (by decide +kernel)
  · exact (hlines [_, _] _ [] rfl).1 (by decide)

end Emend
