import Emend.Proofs.Trie.Insert

/-! Why a trie refuses pairs. The error is about the first typo that cannot be added. -/
namespace Emend

/-- What the error says is wrong with the typo of `p`, the typos of `stored` being there already. -/
def Pair.Faulty (p : Pair) (stored : List Pair) : CompileError → Prop
  | .emptyTypo correction => p.typo = "" ∧ correction = p.correction
  | .foreignCharacter typo c =>
    typo = p.typo ∧ c ∈ p.typo.toList ∧ Alphabet.contains c = false
  | .overlap typo => typo = p.typo ∧ ∃ q ∈ stored, ¬ q.Apart p
  | _ => False

namespace Trie
variable {t t' : Trie} {p : Pair} {ps : List Pair} {e : CompileError} {c : Char}

theorem foldl_pushCode_eq_error {cs : List Char} {codes : Except Char (List UInt8)}
    (h : cs.foldl pushCode codes = .error c) :
    codes = .error c ∨ c ∈ cs ∧ Alphabet.code? c = none := by
  induction cs generalizing codes with
  | nil => exact Or.inl h
  | cons a cs ih =>
    rw [List.foldl_cons] at h
    rcases ih h with hpush | ⟨hc, hnone⟩
    · cases ha : Alphabet.code? a with
      | none =>
        simp only [pushCode, ha] at hpush
        cases hpush
        exact Or.inr ⟨List.mem_cons_self, ha⟩
      | some code =>
        cases codes with
        | error b =>
          simp only [pushCode, ha] at hpush
          exact Or.inl hpush
        | ok codes =>
          simp only [pushCode, ha] at hpush
          cases hpush
    · exact Or.inr ⟨List.mem_cons_of_mem a hc, hnone⟩

/-- A character without a code is one of the typo's. -/
theorem codesOf_eq_error {s : String} (h : codesOf s = .error c) :
    c ∈ s.toList ∧ Alphabet.contains c = false := by
  rcases foldl_pushCode_eq_error h with hok | ⟨hc, hnone⟩
  · cases hok
  · exact ⟨hc, by rw [Alphabet.contains, hnone]; rfl⟩

theorem exists_not_apart (hp : p.Typeable) (h : ¬ t.Accepts p) :
    ∃ q ∈ t.pairs.toList, ¬ q.Apart p := by
  refine Classical.byContradiction fun hno => h ⟨hp, fun q hq => ?_⟩
  exact Classical.byContradiction fun hapart =>
    hno ⟨q, Array.mem_toList_iff.mpr hq, hapart⟩

theorem faulty_of_insert (hs : t.Sound) (h : t.insert p = (t', some e)) :
    p.Faulty t.pairs.toList e := by
  have hspec := insert_spec (p := p) hs
  rw [h] at hspec
  by_cases hempty : p.typo.isEmpty = true
  · simp only [insert, if_pos hempty] at h
    cases h
    exact ⟨String.isEmpty_iff.mp hempty, rfl⟩
  · cases hcodes : codesOf p.typo with
    | error c =>
      simp only [insert, if_neg hempty, hcodes] at h
      cases h
      exact ⟨rfl, codesOf_eq_error hcodes⟩
    | ok u =>
      have hp : p.Typeable := ⟨by simpa using hempty, by rw [codesOf_eq_ok.mp hcodes]; rfl⟩
      have hover : e = .overlap p.typo := by
        simp only [insert, if_neg hempty, hcodes] at h
        split at h
        next => cases h; rfl
        next =>
          split at h
          · cases h; rfl
          · cases h
      rw [hover]
      exact ⟨rfl, exists_not_apart hp hspec⟩

theorem faulty_of_insertAll (hs : t.Sound) (h : t.insertAll ps = .error e) :
    ∃ before p after, ps = before ++ p :: after ∧ t.AcceptsAll before ∧
      p.Faulty (t.pairs.toList ++ before) e := by
  induction ps generalizing t with
  | nil => cases h
  | cons p ps ih =>
    have hspec := insert_spec (p := p) hs
    rw [insertAll] at h
    cases hp : t.insert p with
    | mk t₁ r =>
      rw [hp] at h hspec
      cases r with
      | some e' =>
        cases h
        refine ⟨[], p, ps, rfl, ⟨⟨by simp, List.Pairwise.nil⟩, by simp⟩, ?_⟩
        rw [List.append_nil]
        exact faulty_of_insert hs hp
      | none =>
        obtain ⟨haccepts, hs₁, hpairs⟩ := hspec
        obtain ⟨before, q, after, rfl, hbefore, hfaulty⟩ := ih hs₁ h
        refine ⟨p :: before, q, after, rfl, ?_, ?_⟩
        · exact (acceptsAll_cons hpairs).mpr ⟨haccepts, hbefore⟩
        · rw [hpairs, Array.toList_push, List.append_assoc] at hfaulty
          exact hfaulty

/-- The pairs before the first one that is refused can be stored. -/
theorem faulty_of_ofPairs (h : ofPairs ps = .error e) :
    ∃ before p after, ps = before ++ p :: after ∧ Storable before ∧ p.Faulty before e := by
  obtain ⟨before, p, after, hps, hbefore, hfaulty⟩ := faulty_of_insertAll sound_empty h
  exact ⟨before, p, after, hps, acceptsAll_empty.mp hbefore, hfaulty⟩

end Trie
end Emend
