import Emend.Proofs.Dictionary.Acceptance
import Mathlib.Data.List.Infix

/-! Which lines make a dictionary. That depends on the set of their typos alone, so neither the
order of the lines nor a repeated typo has a say in it. -/
namespace Emend

namespace Rejection

/-- The number of the line that is turned down. -/
def line : Rejection → Nat
  | foreignCharacter n _ | substring n _ _ | tooLong n _ => n

def typo : Rejection → String
  | foreignCharacter _ typo | substring _ typo _ | tooLong _ typo => typo

end Rejection

/-- Each typo is written in the alphabet, fits in the typing buffer and occurs in no other one. -/
structure Admissible (ls : List Line) : Prop where
  written : ∀ l ∈ ls, l.typo.toList.all Alphabet.contains = true
  fits : ∀ l ∈ ls, l.typo.length ≤ typoLimit
  apart : ∀ k ∈ ls, ∀ l ∈ ls, k.typo ≠ l.typo → ¬ k.typo.toList <:+: l.typo.toList

instance : DecidablePred Admissible := fun ls =>
  decidable_of_iff
    ((∀ l ∈ ls, l.typo.toList.all Alphabet.contains = true) ∧
      (∀ l ∈ ls, l.typo.length ≤ typoLimit) ∧
      ∀ k ∈ ls, ∀ l ∈ ls, k.typo ≠ l.typo → ¬ k.typo.toList <:+: l.typo.toList)
    ⟨fun h => ⟨h.1, h.2.1, h.2.2⟩, fun h => ⟨h.written, h.fits, h.apart⟩⟩

namespace Line
variable {ls : List Line} {k l : Line}

/-- The lines whose typo is on no earlier line. -/
def firsts (ls : List Line) : List Line :=
  (ls.zipIdx.filter fun (l, i) => l.typo ∉ (ls.take i).map typo).map (·.1)

theorem firsts_append_singleton (ls : List Line) (l : Line) :
    firsts (ls ++ [l]) = firsts ls ++ if l.typo ∈ ls.map typo then [] else [l] := by
  have hkeep : ∀ e ∈ ls.zipIdx, decide (e.1.typo ∉ ((ls ++ [l]).take e.2).map typo) =
      decide (e.1.typo ∉ (ls.take e.2).map typo) := by
    intro e he
    have hlt := (List.mem_zipIdx' he).1
    rw [List.take_append_of_le_length (Nat.le_of_lt hlt)]
  simp only [firsts]
  rw [List.zipIdx_append, List.filter_append, List.filter_congr hkeep, List.map_append]
  by_cases h : l.typo ∈ ls.map typo <;> simp [h]

theorem firsts_of_repeated (h : ∃ k ∈ ls, k.typo = l.typo) : firsts (ls ++ [l]) = firsts ls := by
  rw [firsts_append_singleton, if_pos (List.mem_map.mpr h), List.append_nil]

theorem firsts_of_new (h : ∀ k ∈ ls, k.typo ≠ l.typo) : firsts (ls ++ [l]) = firsts ls ++ [l] := by
  have hnew : l.typo ∉ ls.map typo := by
    intro hm
    obtain ⟨k, hk, heq⟩ := List.mem_map.mp hm
    exact h k hk heq
  rw [firsts_append_singleton, if_neg hnew]

theorem firsts_of_pairwise (h : ls.Pairwise fun k l => k.typo ≠ l.typo) : firsts ls = ls := by
  induction ls using List.reverseRecOn with
  | nil => rfl
  | append_singleton ls l ih =>
    obtain ⟨hls, -, hl⟩ := List.pairwise_append.mp h
    rw [firsts_of_new fun k hk => hl k hk l (List.mem_singleton_self l), ih hls]

theorem mem_of_mem_firsts (h : l ∈ firsts ls) : l ∈ ls := by
  obtain ⟨e, he, rfl⟩ := List.mem_map.mp h
  obtain ⟨hlt, heq⟩ := List.mem_zipIdx' (List.mem_filter.mp he).1
  exact heq ▸ List.getElem_mem hlt

/-- No typo is on two of them. -/
theorem pairwise_firsts (ls : List Line) : (firsts ls).Pairwise fun k l => k.typo ≠ l.typo := by
  induction ls using List.reverseRecOn with
  | nil => exact List.Pairwise.nil
  | append_singleton ls l ih =>
    by_cases hl : l.typo ∈ ls.map typo
    · rwa [firsts_append_singleton, if_pos hl, List.append_nil]
    · rw [firsts_append_singleton, if_neg hl]
      refine List.pairwise_append.mpr ⟨ih, List.pairwise_singleton .., fun k hk m hm heq => ?_⟩
      rw [List.mem_singleton.mp hm] at heq
      exact hl (heq ▸ List.mem_map_of_mem (mem_of_mem_firsts hk))

theorem exists_mem_firsts (h : l ∈ ls) : ∃ k ∈ firsts ls, k.typo = l.typo := by
  induction ls using List.reverseRecOn generalizing l with
  | nil => cases h
  | append_singleton ls m ih =>
    rw [firsts_append_singleton]
    by_cases hm : m.typo ∈ ls.map typo
    · obtain ⟨j, hj, hjm⟩ := List.mem_map.mp hm
      rw [if_pos hm, List.append_nil]
      rcases List.mem_append.mp h with h | h
      · exact ih h
      · obtain rfl := List.mem_singleton.mp h
        exact hjm ▸ ih hj
    · rw [if_neg hm]
      rcases List.mem_append.mp h with h | h
      · obtain ⟨k, hk, heq⟩ := ih h
        exact ⟨k, List.mem_append_left _ hk, heq⟩
      · exact ⟨l, List.mem_append_right _ h, rfl⟩

theorem exists_mem_firsts_iff {t : String} :
    (∃ l ∈ firsts ls, l.typo = t) ↔ ∃ l ∈ ls, l.typo = t := by
  constructor
  · rintro ⟨l, hl, heq⟩
    exact ⟨l, mem_of_mem_firsts hl, heq⟩
  · rintro ⟨l, hl, rfl⟩
    exact exists_mem_firsts hl

end Line

namespace Admissible
variable {ls ls' : List Line} {l : Line}

/-- Only the typos count, and of those only which there are. -/
theorem of_typos (h : Admissible ls) (hsub : ∀ l ∈ ls', ∃ k ∈ ls, k.typo = l.typo) :
    Admissible ls' where
  written l hl := by
    obtain ⟨k, hk, heq⟩ := hsub l hl
    exact heq ▸ h.written k hk
  fits l hl := by
    obtain ⟨k, hk, heq⟩ := hsub l hl
    exact heq ▸ h.fits k hk
  apart l hl m hm hne := by
    obtain ⟨j, hj, hjl⟩ := hsub l hl
    obtain ⟨k, hk, hkm⟩ := hsub m hm
    rw [← hjl, ← hkm] at hne ⊢
    exact h.apart j hj k hk hne

theorem of_subset (h : Admissible ls) (hsub : ls' ⊆ ls) : Admissible ls' :=
  h.of_typos fun l hl => ⟨l, hsub hl, rfl⟩

theorem pairwise_disjoint (h : Admissible ls) :
    ((Line.firsts ls).map Line.pair).Pairwise Pair.Disjoint := by
  rw [List.pairwise_map]
  refine (Line.pairwise_firsts ls).imp_of_mem fun {k l} hk hl hne => ?_
  have hk := Line.mem_of_mem_firsts hk
  have hl := Line.mem_of_mem_firsts hl
  exact ⟨h.apart k hk l hl hne, h.apart l hl k hk hne.symm⟩

theorem nil : Admissible [] := ⟨nofun, nofun, nofun⟩

theorem of_repeated (h : Admissible ls) (hl : ∃ k ∈ ls, k.typo = l.typo) :
    Admissible (ls ++ [l]) := by
  refine h.of_typos fun m hm => ?_
  rcases List.mem_append.mp hm with hm | hm
  · exact ⟨m, hm, rfl⟩
  · obtain rfl := List.mem_singleton.mp hm
    exact hl

/-- What a line with a new typo has to meet. -/
theorem of_new (h : Admissible ls) (hwritten : l.typo.toList.all Alphabet.contains = true)
    (hfits : l.typo.length ≤ typoLimit) (happart : ∀ k ∈ ls, l.pair.Disjoint k.pair) :
    Admissible (ls ++ [l]) where
  written := List.forall_mem_append.mpr ⟨h.written, List.forall_mem_singleton.mpr hwritten⟩
  fits := List.forall_mem_append.mpr ⟨h.fits, List.forall_mem_singleton.mpr hfits⟩
  apart j hj k hk hne := by
    rcases List.mem_append.mp hj with hj | hj <;> rcases List.mem_append.mp hk with hk | hk
    · exact h.apart j hj k hk hne
    · rw [List.mem_singleton.mp hk]
      exact (happart j hj).2
    · rw [List.mem_singleton.mp hj]
      exact (happart k hk).1
    · rw [List.mem_singleton.mp hj, List.mem_singleton.mp hk] at hne
      exact (hne rfl).elim

end Admissible

/-- The state once the lines `before` are taken: what is accepted are the first lines, and they
could be accepted. -/
structure Acceptance.After (before : List Line) (v : Acceptance) : Prop where
  accepted : v.accepted.reverse = (Line.firsts before).map Line.pair
  admissible : Admissible before

namespace Acceptance
variable {words : WordList} {least : Nat} {v v' : Acceptance} {l : Line} {before ls : List Line}
  {e : Rejection}

theorem After.exists_accepted_iff (h : After before v) {t : String} :
    (∃ p ∈ v.accepted, p.typo = t) ↔ ∃ k ∈ before, k.typo = t := by
  rw [← Line.exists_mem_firsts_iff]
  constructor
  · rintro ⟨p, hp, heq⟩
    have hp := List.mem_reverse.mpr hp
    rw [h.accepted] at hp
    obtain ⟨k, hk, rfl⟩ := List.mem_map.mp hp
    exact ⟨k, hk, heq⟩
  · rintro ⟨k, hk, heq⟩
    have hp := List.mem_map_of_mem (f := Line.pair) hk
    rw [← h.accepted] at hp
    exact ⟨k.pair, List.mem_reverse.mp hp, heq⟩

theorem After.seen_iff (h : After before v) {t : String} :
    v.seen t = true ↔ ∃ k ∈ before, k.typo = t := by
  rw [← h.exists_accepted_iff, seen, List.any_eq_true]
  simp only [beq_iff_eq]

theorem After.new_of_seen (h : After before v) (hseen : v.seen l.typo = false) :
    ∀ k ∈ before, k.typo ≠ l.typo := by
  intro k hk heq
  rw [h.seen_iff.mpr ⟨k, hk, heq⟩] at hseen
  cases hseen

theorem after_start : After [] start := ⟨rfl, .nil⟩

theorem After.step_ok (hv : After before v) (h : v.step words least l = .ok v') :
    After (before ++ [l]) v' := by
  rcases step_eq_ok h with ⟨hseen, heq⟩ | ⟨hseen, heq, hnew, hwritten, hfits⟩
  · have hold := hv.seen_iff.mp hseen
    refine ⟨?_, hv.admissible.of_repeated hold⟩
    rw [heq, hv.accepted, Line.firsts_of_repeated hold]
  · refine ⟨?_, hv.admissible.of_new hwritten hfits fun k hk => ?_⟩
    · rw [heq, List.reverse_cons, hv.accepted, Line.firsts_of_new (hv.new_of_seen hseen),
        List.map_append]
      rfl
    · obtain ⟨p, hp, hpk⟩ := hv.exists_accepted_iff.mpr ⟨k, hk, rfl⟩
      have hd := hnew p hp
      rwa [Pair.Disjoint, hpk] at hd

/-- Whatever a line is turned down for, it and the lines before it are no dictionary. -/
theorem After.step_error (hv : After before v) (h : v.step words least l = .error e) :
    ¬ Admissible (before ++ [l]) ∧ e.line = l.number ∧ e.typo = l.typo := by
  have hl : l ∈ before ++ [l] := List.mem_append_right _ (List.mem_singleton_self l)
  obtain ⟨hseen, ⟨rfl, hf⟩ | ⟨p, hp, rfl, hf⟩ | ⟨rfl, hf⟩⟩ := step_eq_error h
  · refine ⟨fun had => ?_, rfl, rfl⟩
    rw [had.written l hl] at hf
    cases hf
  · refine ⟨fun had => ?_, rfl, rfl⟩
    obtain ⟨k, hk, hkp⟩ := hv.exists_accepted_iff.mp ⟨p, hp, rfl⟩
    have hne := hv.new_of_seen hseen k hk
    have hk := List.mem_append_left [l] hk
    apply hf
    rw [Pair.Disjoint, ← hkp]
    exact ⟨had.apart l hl k hk hne.symm, had.apart k hk l hl hne⟩
  · refine ⟨fun had => ?_, rfl, rfl⟩
    have hfits := had.fits l hl
    omega

theorem After.run_ok (hv : After before v) (h : v.run words least ls = .ok v') :
    After (before ++ ls) v' := by
  induction ls generalizing v before with
  | nil =>
    cases h
    rwa [List.append_nil]
  | cons l ls ih =>
    rw [run] at h
    split at h
    next w hw =>
      have := ih (hv.step_ok hw) h
      rwa [List.append_assoc] at this
    next => cases h

/-- A run that is turned down stops at the first line that cannot be taken. -/
theorem After.run_error (hv : After before v) (h : v.run words least ls = .error e) :
    ∃ taken l rest, ls = taken ++ l :: rest ∧ Admissible (before ++ taken) ∧
      ¬ Admissible (before ++ taken ++ [l]) ∧ e.line = l.number ∧ e.typo = l.typo := by
  induction ls generalizing v before with
  | nil => cases h
  | cons l ls ih =>
    rw [run] at h
    split at h
    next w hw =>
      obtain ⟨taken, m, rest, rfl, hok, hbad⟩ := ih (hv.step_ok hw) h
      refine ⟨l :: taken, m, rest, rfl, ?_⟩
      rw [List.append_cons]
      exact ⟨hok, hbad⟩
    next hw =>
      cases h
      refine ⟨[], l, ls, rfl, ?_⟩
      rw [List.append_nil]
      exact ⟨hv.admissible, hv.step_error hw⟩

end Acceptance

variable {words : WordList} {least : Nat} {ls : List Line} {ps : List Pair} {ws : List Warning}
  {e : Rejection}

theorem accept_eq_ok (h : accept words least ls = .ok (ps, ws)) :
    Admissible ls ∧ ps = (Line.firsts ls).map Line.pair := by
  unfold accept at h
  split at h
  next v hv =>
    cases h
    have hafter := Acceptance.after_start.run_ok hv
    exact ⟨hafter.admissible, hafter.accepted⟩
  next => cases h

theorem disjoint_of_accept (h : accept words least ls = .ok (ps, ws)) :
    ps.Pairwise Pair.Disjoint := by
  obtain ⟨hls, rfl⟩ := accept_eq_ok h
  exact hls.pairwise_disjoint

theorem VettedDictionary.ofBytes_eq_ok {name : String} {source : List UInt8}
    {d : VettedDictionary} : ofBytes name source words least = .ok d ↔ ∃ ls,
      Line.parseAll source = .ok ls ∧
      accept words least ls = .ok (d.dictionary.pairs, d.warnings) ∧
      d.dictionary.name = name := by
  unfold ofBytes
  cases hls : Line.parseAll source with
  | error e => simp
  | ok ls =>
    cases haccept : accept words least ls with
    | error e => simp [haccept]
    | ok r =>
      obtain ⟨ps, ws⟩ := r
      obtain ⟨⟨title, qs⟩, vs⟩ := d
      simp only [haccept, Except.ok.injEq, exists_eq_left', Prod.mk.injEq, mk.injEq,
        Dictionary.mk.injEq]
      constructor
      · rintro ⟨⟨rfl, rfl⟩, rfl⟩
        exact ⟨⟨rfl, rfl⟩, rfl⟩
      · rintro ⟨⟨rfl, rfl⟩, rfl⟩
        exact ⟨⟨rfl, rfl⟩, rfl⟩

/-- No typo of a dictionary occurs in another one. -/
theorem VettedDictionary.disjoint {name : String} {source : List UInt8} {d : VettedDictionary}
    (h : ofBytes name source words least = .ok d) :
    d.dictionary.pairs.Pairwise Pair.Disjoint := by
  obtain ⟨ls, -, haccept, -⟩ := ofBytes_eq_ok.mp h
  exact disjoint_of_accept haccept

theorem accept_eq_error (h : accept words least ls = .error e) :
    ∃ before l rest, ls = before ++ l :: rest ∧ Admissible before ∧
      ¬ Admissible (before ++ [l]) ∧ e.line = l.number ∧ e.typo = l.typo := by
  unfold accept at h
  split at h
  next => cases h
  next hv =>
    cases h
    exact Acceptance.after_start.run_error hv

theorem exists_accept_iff : (∃ r, accept words least ls = .ok r) ↔ Admissible ls := by
  constructor
  · rintro ⟨⟨ps, ws⟩, h⟩
    exact (accept_eq_ok h).1
  · intro hls
    cases h : accept words least ls with
    | ok r => exact ⟨r, rfl⟩
    | error e =>
      obtain ⟨before, l, rest, rfl, -, hbad, -⟩ := accept_eq_error h
      refine (hbad (hls.of_subset fun k hk => ?_)).elim
      rw [List.append_cons]
      exact List.mem_append_left rest hk

/-- The lines are a dictionary exactly if they are admissible, and so they are in any order. The
pairs are those of the first lines. An error blames the first line that cannot be taken. -/
theorem accept_admissible (words : WordList) (least : Nat) (ls : List Line) :
    ((∃ r, accept words least ls = .ok r) ↔ Admissible ls) ∧
    (∀ ps ws, accept words least ls = .ok (ps, ws) → ps = (Line.firsts ls).map Line.pair) ∧
    (∀ ls', ls'.Perm ls →
      ((∃ r, accept words least ls' = .ok r) ↔ ∃ r, accept words least ls = .ok r)) ∧
    ∀ e, accept words least ls = .error e →
      ∃ before l rest, ls = before ++ l :: rest ∧ Admissible before ∧
        ¬ Admissible (before ++ [l]) ∧ e.line = l.number ∧ e.typo = l.typo := by
  refine ⟨exists_accept_iff, fun ps ws h => (accept_eq_ok h).2, fun ls' hp => ?_,
    fun e => accept_eq_error⟩
  rw [exists_accept_iff, exists_accept_iff]
  exact ⟨fun h => h.of_subset hp.symm.subset, fun h => h.of_subset hp.subset⟩

theorem accept_admissible_hte :
    Line.firsts [⟨1, "hte", "the"⟩, ⟨2, "hte", "then"⟩] = [⟨1, "hte", "the"⟩] ∧
    (∃ r, accept .empty 5 [⟨2, "hte", "then"⟩, ⟨1, "hte", "the"⟩] = .ok r) ∧
    ∃ before l rest, [⟨1, "hte", "the"⟩, ⟨2, "hten", "then"⟩, ⟨3, "x-", "y"⟩] =
      before ++ l :: rest ∧ Admissible before ∧ ¬ Admissible (before ++ [l]) ∧
      2 = l.number ∧ "hten" = l.typo :=
  ⟨by decide +kernel, (accept_admissible .empty 5 _).1.mpr (by decide +kernel),
    (accept_admissible .empty 5 _).2.2.2 (.substring 2 "hten" "hte") rfl⟩

end Emend
