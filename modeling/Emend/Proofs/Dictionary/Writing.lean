import Emend.Proofs.Alphabet
import Emend.Proofs.Dictionary.Grammar
import Emend.Proofs.Dictionary.Loading
import Emend.Proofs.Dictionary.Warnings

/-! Dictionaries written out as sources. What a line can give, a line can be written for: a typo in
the alphabet is in lowercase and has no blank and no dash, and a correction was trimmed and cut out
of one line. -/
namespace Emend

namespace Alphabet
variable {c : Char} {cs : List Char}

theorem isBlank_of_contains (h : contains c = true) : Text.isBlank c = false := by
  have hc := toNat_of_contains h
  have hlow : ¬ c.toNat ≤ 13 := by omega
  have hspace : ¬ c.toNat < 32 ∧ ¬ c.toNat ≤ 32 := by omega
  have hhigh : c.toNat < 133 := by omega
  simp [Text.isBlank, Text.blanks, Text.Ranges.contains, Text.Ranges.covers, hlow, hspace, hhigh]

theorem isLower_of_contains (h : contains c = true) : Text.IsLower c := by
  have hc := toNat_of_contains h
  have hsame : c.toLower = c := by
    unfold Char.toLower
    split
    next hupper =>
      have hlow : 65 ≤ c.toNat := UInt32.le_iff_toNat_le.mp hupper.1
      have hhigh : c.toNat ≤ 90 := UInt32.le_iff_toNat_le.mp hupper.2
      omega
    next => rfl
  refine ⟨?_, ?_⟩
  · rintro rfl
    revert hc
    decide
  · rw [Text.lowerChar, if_pos (by omega), hsame]

theorem ne_of_contains {d : Char} (h : contains c = true) (hd : contains d = false) : c ≠ d := by
  rintro rfl
  rw [h] at hd
  cases hd

theorem trimmed_of_contains (h : ∀ c ∈ cs, contains c = true) : Text.Trimmed cs where
  first c hc := isBlank_of_contains (h c (List.mem_of_head? hc))
  last c hc := isBlank_of_contains (h c (List.mem_of_getLast? hc))

end Alphabet

namespace Pair
variable {p : Pair} {ps : List Pair}

/-- What a line can give. -/
structure Readable (p : Pair) : Prop where
  nonempty : p.typo ≠ ""
  written : ∀ c ∈ p.typo.toList, Alphabet.contains c = true
  trimmed : Text.Trimmed p.correction.toList
  oneLine : '\n' ∉ p.correction.toList

/-- The line of a pair. -/
def line (p : Pair) : String := p.typo ++ " -> " ++ p.correction

theorem toList_line (p : Pair) : p.line.toList =
    p.typo.toList ++ (' ' :: (Line.arrow ++ ' ' :: p.correction.toList)) := by
  simp [line, Line.arrow]

theorem Readable.toList_typo_ne_nil (h : p.Readable) : p.typo.toList ≠ [] := by
  simpa using h.nonempty

/-- Trimming a line takes nothing off but the blank before an empty correction. -/
theorem Readable.trim_line (h : p.Readable) : ∃ after, Text.trim after = p.correction.toList ∧
    Text.trim p.line.toList = p.typo.toList ++ (' ' :: (Line.arrow ++ after)) := by
  have hfirst := (Alphabet.trimmed_of_contains h.written).first
  rw [toList_line]
  by_cases hempty : p.correction.toList = []
  · refine ⟨[], hempty.symm, ?_⟩
    have hcut : p.typo.toList ++ (' ' :: (Line.arrow ++ ' ' :: p.correction.toList)) =
        p.typo.toList ++ ([' ', '-'] ++ ['>']) ++ [' '] := by
      simp [hempty, Line.arrow]
    have htrimmed : Text.Trimmed (p.typo.toList ++ ([' ', '-'] ++ ['>'])) :=
      Text.trimmed_append h.toList_typo_ne_nil hfirst _ (List.cons_ne_nil _ _) fun c hc => by
        cases hc
        decide
    rw [hcut, Text.trim_concat (by decide), Text.trim_eq_self htrimmed]
    rfl
  · have htrimmed : Text.Trimmed (p.typo.toList ++
        ((' ' :: (Line.arrow ++ [' '])) ++ p.correction.toList)) :=
      Text.trimmed_append h.toList_typo_ne_nil hfirst _ hempty h.trimmed.last
    refine ⟨' ' :: p.correction.toList, ?_, Text.trim_eq_self htrimmed⟩
    rw [Text.trim_cons (by decide), Text.trim_eq_self h.trimmed]

theorem Readable.normalizeTypo_eq (h : p.Readable) :
    Line.normalizeTypo p.typo.toList = p.typo := by
  have hlower : Text.lower p.typo.toList = p.typo.toList :=
    Text.lower_eq_self fun c hc => Alphabet.isLower_of_contains (h.written c hc)
  have hspaces : ∀ c ∈ p.typo.toList, (if c = ' ' then boundary else c) = c := fun c hc =>
    if_neg (Alphabet.ne_of_contains (h.written c hc) (by decide))
  rw [Line.normalizeTypo, hlower, List.map_congr_left hspaces, List.map_id']
  exact String.ofList_toList

/-- The line of a pair gives the pair. -/
theorem Readable.gives (h : p.Readable) :
    Line.Gives (Text.utf8 p.line) p.typo p.correction := by
  obtain ⟨after, hafter, htrim⟩ := h.trim_line
  have htypo : Text.trim (p.typo.toList ++ [' ']) = p.typo.toList := by
    rw [Text.trim_concat (by decide),
      Text.trim_eq_self (Alphabet.trimmed_of_contains h.written)]
  have harrow : Text.Splits Line.arrow (Text.trim p.line.toList) (p.typo.toList ++ [' '])
      after := by
    rw [htrim, List.append_cons]
    apply Text.splits_of_not_mem
    intro hmem
    rcases List.mem_append.mp hmem with hmem | hmem
    · exact Alphabet.ne_of_contains (h.written _ hmem) (d := '-') (by decide) rfl
    · simp at hmem
  have hcomment : (Text.trim p.line.toList).head? ≠ some '#' := by
    rw [htrim, List.head?_append_of_ne_nil _ h.toList_typo_ne_nil]
    intro hhead
    exact Alphabet.ne_of_contains (h.written _ (List.mem_of_head? hhead)) (d := '#')
      (by decide) rfl
  have hgives : Line.Gives (Text.utf8 p.line)
      (Line.normalizeTypo (Text.trim (p.typo.toList ++ [' ']))) (String.ofList (Text.trim after)) :=
    .pair hcomment harrow (htypo.symm ▸ h.toList_typo_ne_nil)
  rwa [htypo, hafter, h.normalizeTypo_eq, String.ofList_toList] at hgives

theorem Readable.newline_not_mem (h : p.Readable) : Text.newline ∉ Text.utf8 p.line := by
  rw [Text.newline_mem_utf8_iff, toList_line]
  simp only [List.mem_append, List.mem_cons, not_or]
  refine ⟨fun hmem => ?_, by decide, by decide, by decide, h.oneLine⟩
  exact Alphabet.ne_of_contains (h.written _ hmem) (d := '\n') (by decide) rfl

/-- The source with one line for each pair. -/
def written (ps : List Pair) : List UInt8 :=
  ps.flatMap fun p => Text.utf8 p.line ++ [Text.newline]

theorem cut_written (h : ∀ p ∈ ps, p.Readable) :
    Text.Cut (written ps) (ps.map fun p => Text.dropReturn (Text.utf8 p.line)) := by
  induction ps with
  | nil => exact .nothing
  | cons p ps ih =>
    obtain ⟨hp, hps⟩ := List.forall_mem_cons.mp h
    have hnext := Text.Cut.next hp.newline_not_mem (ih hps)
    rwa [List.append_cons] at hnext

/-- The lines that such a source has, from number `n` on. -/
def numbered (n : Nat) (ps : List Pair) : List Line :=
  (ps.zipIdx n).map fun (p, i) => ⟨i, p.typo, p.correction⟩

theorem parseFrom_written (h : ∀ p ∈ ps, p.Readable) (n : Nat) (done : List Line) :
    Line.parseFrom n done (ps.map fun p => Text.dropReturn (Text.utf8 p.line)) =
      .ok (done.reverse ++ numbered n ps) := by
  induction ps generalizing n done with
  | nil => simp [Line.parseFrom, numbered]
  | cons p ps ih =>
    obtain ⟨hp, hps⟩ := List.forall_mem_cons.mp h
    rw [List.map_cons, Line.parseFrom_cons, Line.read_dropReturn, Line.read_of_gives hp.gives]
    simp only [ih hps]
    simp [numbered]

theorem parseAll_written (h : ∀ p ∈ ps, p.Readable) :
    Line.parseAll (written ps) = .ok (numbered 1 ps) := by
  rw [Line.parseAll, (cut_written h).splitLines_eq]
  exact parseFrom_written h 1 []

theorem map_pair_numbered (n : Nat) (ps : List Pair) : (numbered n ps).map Line.pair = ps := by
  rw [numbered, List.map_map]
  exact List.zipIdx_map_fst n ps

theorem pairwise_numbered (h : ps.Pairwise Pair.Disjoint) (n : Nat) :
    (numbered n ps).Pairwise fun k l => k.typo ≠ l.typo := by
  rw [← map_pair_numbered n ps, List.pairwise_map] at h
  refine h.imp fun {k l} hd heq => hd.1 ?_
  have htypo : k.pair.typo = l.pair.typo := heq
  rw [htypo]

end Pair

/-- What is cut out of one line has no newline. -/
theorem Line.Gives.correction {bytes : List UInt8} {typo correction : String}
    (h : Gives bytes typo correction) (hbytes : Text.newline ∉ bytes) :
    Text.Trimmed correction.toList ∧ '\n' ∉ correction.toList := by
  cases h with
  | @pair text before after hcomment harrow htypo =>
    rw [String.toList_ofList]
    refine ⟨Text.trimmed_trim after, fun hmem => ?_⟩
    have hafter : after <:+: Text.trim text.toList := by
      rw [harrow.eq, ← List.append_assoc]
      exact (List.suffix_append _ after).isInfix
    have hcut := (Text.trim_infix after).trans (hafter.trans (Text.trim_infix text.toList))
    exact hbytes (Text.newline_mem_utf8_iff.mpr (hcut.subset hmem))

namespace VettedDictionary
variable {name : String} {source : List UInt8} {words : WordList} {least : Nat}
  {d : VettedDictionary}

theorem readable (h : ofBytes name source words least = .ok d) {p : Pair}
    (hp : p ∈ d.dictionary.pairs) : p.Readable := by
  obtain ⟨hne, hwritten, -⟩ := exists_line h hp
  obtain ⟨ls, hls, -, -, hpairs⟩ := exists_lines h
  rw [hpairs] at hp
  obtain ⟨l, hl, rfl⟩ := List.mem_map.mp hp
  obtain ⟨found, hsays, rfl⟩ := Line.parseAll_eq_ok.mp hls
  obtain ⟨x, hx, rfl⟩ := List.mem_filterMap.mp (Line.mem_of_mem_firsts hl)
  obtain ⟨i, bytes, hi, -, hgives⟩ := hsays.mem_iff.mp hx
  have hbytes := (Text.cut_splitLines source).newline_not_mem bytes (List.mem_of_getElem? hi)
  obtain ⟨htrimmed, hline⟩ := hgives.correction hbytes
  exact ⟨hne, hwritten, htrimmed, hline⟩

/-- A dictionary that was read can be written out, one line for each pair, and read again with any
words and any least length: it has the same pairs in the same order, and no line of it is passed
over. -/
theorem ofBytes_written (h : ofBytes name source words least = .ok d) (title : String)
    (words' : WordList) (least' : Nat) : ∃ warnings,
      ofBytes title (Pair.written d.dictionary.pairs) words' least' =
        .ok ⟨⟨title, d.dictionary.pairs⟩, warnings⟩ ∧
      ∀ n typo, .duplicate n typo ∉ warnings := by
  obtain ⟨ls, -, hls, -, hpairs⟩ := exists_lines h
  have hparse := Pair.parseAll_written fun p hp => readable h hp
  have hdistinct := Pair.pairwise_numbered (disjoint h) 1
  have hadmissible : Admissible (Pair.numbered 1 d.dictionary.pairs) := by
    refine hls.of_typos fun l hl => ?_
    have hl := List.mem_map_of_mem (f := Line.pair) hl
    rw [Pair.map_pair_numbered, hpairs] at hl
    obtain ⟨k, hk, hkl⟩ := List.mem_map.mp hl
    exact ⟨k, Line.mem_of_mem_firsts hk, congrArg Pair.typo hkl⟩
  have hexists : ∃ r, accept words' least' (Pair.numbered 1 d.dictionary.pairs) = .ok r :=
    exists_accept_iff.mpr hadmissible
  obtain ⟨⟨ps, warnings⟩, haccept⟩ := hexists
  obtain ⟨-, rfl⟩ := accept_eq_ok haccept
  rw [Line.firsts_of_pairwise hdistinct, Pair.map_pair_numbered] at haccept
  refine ⟨warnings, ofBytes_eq_ok.mpr ⟨_, hparse, haccept, rfl⟩, fun n typo hmem => ?_⟩
  rw [warnings_of_accept haccept, Line.raised_of_pairwise hdistinct] at hmem
  obtain ⟨l, -, hl⟩ := List.mem_flatMap.mp hmem
  exact Acceptance.duplicate_not_mem_findings n typo l hl

/-- An empty correction, one with an arrow and a comment sign, and a repeated typo. -/
theorem ofBytes_written_hte :
    VettedDictionary.ofBytes "english" (Text.utf8 "HTE->the\r\nte h->a -> #b\nnad ->\nhte->x")
      .empty 0 = .ok ⟨⟨"english", [⟨"hte", "the"⟩, ⟨"te:h", "a -> #b"⟩, ⟨"nad", ""⟩]⟩,
        [.duplicate 4 "hte"]⟩ ∧
    Pair.written [⟨"hte", "the"⟩, ⟨"te:h", "a -> #b"⟩, ⟨"nad", ""⟩] =
      Text.utf8 "hte -> the\nte:h -> a -> #b\nnad -> \n" ∧
    ∃ warnings, VettedDictionary.ofBytes "again"
      (Text.utf8 "hte -> the\nte:h -> a -> #b\nnad -> \n") .fallback 5 =
        .ok ⟨⟨"again", [⟨"hte", "the"⟩, ⟨"te:h", "a -> #b"⟩, ⟨"nad", ""⟩]⟩, warnings⟩ ∧
      ∀ n typo, .duplicate n typo ∉ warnings := by
  have hload : VettedDictionary.ofBytes "english"
      (Text.utf8 "HTE->the\r\nte h->a -> #b\nnad ->\nhte->x") .empty 0 =
        .ok ⟨⟨"english", [⟨"hte", "the"⟩, ⟨"te:h", "a -> #b"⟩, ⟨"nad", ""⟩]⟩,
          [.duplicate 4 "hte"]⟩ := rfl
  exact ⟨hload, rfl, ofBytes_written hload "again" .fallback 5⟩

end VettedDictionary
end Emend
