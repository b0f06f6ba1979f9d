import Emend.Proofs.Table.Compile
import Emend.Proofs.Trie.Faults

/-! Which pairs have a table, and what is wrong with the others. Typos are looked at first, then
edits, then the size; the bytes are written without fail. -/
namespace Emend

/-- No typo is empty, has a character without a code, or ends the typo at another place. -/
structure TyposFit (ps : List Pair) : Prop where
  nonempty : ∀ p ∈ ps, p.typo ≠ ""
  alphabet : ∀ p ∈ ps, ∀ c ∈ p.typo.toList, Alphabet.contains c = true
  suffixFree : ∀ {i j : Nat} {p q : Pair}, ps[i]? = some p → ps[j]? = some q → i ≠ j →
    ¬ p.typo.toList <:+ q.typo.toList

/-- What the error says is wrong with the edit of `p`. -/
def Pair.Inexpressible (p : Pair) : CompileError → Prop
  | .tooManyBackspaces typo correction n =>
    typo = p.typo ∧ correction = p.correction ∧ n = p.excess ∧ (n < 0 ∨ 63 < n)
  | .nonAsciiSuffix typo correction =>
    typo = p.typo ∧ correction = p.correction ∧ isAscii p.remainder = false
  | _ => False

/-- The error says that links or sizes do not fit together. -/
def CompileError.Internal : CompileError → Prop
  | .linkTooFar _ _ => True
  | .unexpectedSize _ _ => True
  | _ => False

namespace Table
variable {name : String} {ps : List Pair} {p : Pair} {t : Table} {tree : RadixTree}
  {es : List Entry} {e : CompileError}

/-- The entries that pairs are flattened to. -/
def flattened (ps : List Pair) : Except CompileError (List Entry) := do
  let trie ← Trie.ofPairs ps
  trie.entries

/-- Pairs that a table can be made of. -/
structure Acceptable (ps : List Pair) : Prop where
  nonempty : ps ≠ []
  typos : TyposFit ps
  edits : ∀ p ∈ ps, ∃ edit, Edit.ofPair p = .ok edit
  size : ∀ es, flattened ps = .ok es → totalLength .three es ≤ 16777215

/-! Typos. -/

theorem typosFit_iff : TyposFit ps ↔ Storable ps := by
  constructor
  · intro h
    refine ⟨fun p hp => Pair.typeable_iff.mpr ⟨h.nonempty p hp, h.alphabet p hp⟩, ?_⟩
    rw [List.pairwise_iff_getElem]
    intro i j hi hj hij
    have hp := List.getElem?_eq_getElem hi
    have hq := List.getElem?_eq_getElem hj
    exact ⟨h.suffixFree hp hq (by omega), h.suffixFree hq hp (by omega)⟩
  · rintro ⟨htypeable, hapart⟩
    refine ⟨fun p hp => (Pair.typeable_iff.mp (htypeable p hp)).1,
      fun p hp => (Pair.typeable_iff.mp (htypeable p hp)).2, ?_⟩
    intro i j p q hp hq hij hsuffix
    have hnot : ¬ p.Apart q := fun h => h.1 hsuffix
    exact hij (index_eq_of_pairwise hapart hp hq hnot fun h => hnot h.symm)

theorem not_storable_of_ofPairs (h : Trie.ofPairs ps = .error e) : ¬ Storable ps := by
  have hspec := Trie.ofPairs_spec ps
  rwa [h] at hspec

/-! Edits. -/

theorem inexpressible_of_ofPair (h : Edit.ofPair p = .error e) : p.Inexpressible e := by
  rw [Edit.ofPair] at h
  split at h
  next hcount =>
    cases h
    exact ⟨rfl, rfl, rfl, hcount⟩
  next =>
    split at h
    next => cases h
    next hascii =>
      cases h
      exact ⟨rfl, rfl, by simpa using hascii⟩

/-- The entries cannot be made if and only if one of the edits cannot. -/
theorem exists_of_flatten_eq_error (hps : Storable ps) (hspelled : tree.SpelledBy ps)
    (h : tree.flatten ps.toArray 0 = .error e) : ∃ p ∈ ps, Edit.ofPair p = .error e := by
  obtain ⟨k, hk, he⟩ := RadixTree.flatten_eq_error h
  obtain ⟨p, hp⟩ := (mem_leaves_of_spelledBy hps hspelled).mp hk
  exact ⟨p, List.mem_of_getElem? hp, (editOf_eq hp).symm.trans he⟩

/-! One stage after the other. -/

theorem flattened_eq_ok : flattened ps = .ok es ↔
    ∃ trie, Trie.ofPairs ps = .ok trie ∧ trie.entries = .ok es := bind_eq_ok

theorem flattened_of_compile (h : compile name ps = .ok t) : flattened ps = .ok t.entries := by
  have hne : ps ≠ [] := by
    rintro rfl
    rw [compile_nil] at h
    cases h
  rw [compile_of_ne_nil hne] at h
  obtain ⟨trie, htrie, h⟩ := bind_eq_ok.mp h
  obtain ⟨es, hes, h⟩ := bind_eq_ok.mp h
  obtain ⟨l, -, h⟩ := bind_eq_ok.mp h
  obtain ⟨data, -, h⟩ := bind_eq_ok.mp h
  rw [pure_eq_ok.mp h]
  exact flattened_eq_ok.mpr ⟨trie, htrie, hes⟩

theorem compile_eq_error (hne : ps ≠ []) (h : compile name ps = .error e) :
    Trie.ofPairs ps = .error e ∨ ∃ trie, Trie.ofPairs ps = .ok trie ∧
      (trie.entries = .error e ∨ ∃ es, trie.entries = .ok es ∧
        Layout.narrowest name es = .error e) := by
  rw [compile_of_ne_nil hne] at h
  rcases bind_eq_error.mp h with h | ⟨trie, htrie, h⟩
  · exact Or.inl h
  refine Or.inr ⟨trie, htrie, ?_⟩
  rcases bind_eq_error.mp h with h | ⟨es, hes, h⟩
  · exact Or.inl h
  refine Or.inr ⟨es, hes, ?_⟩
  rcases bind_eq_error.mp h with h | ⟨l, hl, h⟩
  · exact h
  obtain ⟨data, hdata⟩ := exists_encode hes hl
  rcases bind_eq_error.mp h with h | ⟨_, -, h⟩
  · rw [hdata] at h
    cases h
  · cases h

/-- Why there is no table. Each reason but the first excludes those before it. -/
inductive Refusal (name : String) (ps : List Pair) (e : CompileError) : Prop
  | empty : ps = [] → e = .noPairs name → Refusal name ps e
  | typo : ¬ TyposFit ps → (∃ before p after, ps = before ++ p :: after ∧ TyposFit before ∧
      p.Faulty before e) → Refusal name ps e
  | edit : TyposFit ps → (∃ p ∈ ps, Edit.ofPair p = .error e ∧ p.Inexpressible e) →
    Refusal name ps e
  | size : TyposFit ps → (∀ p ∈ ps, ∃ edit, Edit.ofPair p = .ok edit) →
    (∃ es size, flattened ps = .ok es ∧ 16777215 < size ∧ size ≤ totalLength .three es ∧
      e = .tableTooLarge name size) → Refusal name ps e

theorem refusal_of_compile (h : compile name ps = .error e) : Refusal name ps e := by
  by_cases hne : ps = []
  · subst hne
    cases h
    exact .empty rfl rfl
  rcases compile_eq_error hne h with htypo | ⟨trie, htrie, hrest⟩
  · obtain ⟨before, p, after, hps, hbefore, hfaulty⟩ := Trie.faulty_of_ofPairs htypo
    refine .typo (fun hfit => not_storable_of_ofPairs htypo (typosFit_iff.mp hfit)) ?_
    exact ⟨before, p, after, hps, typosFit_iff.mpr hbefore, hfaulty⟩
  · obtain ⟨hstorable, -, hspelled, hpairs⟩ := ofPairs_eq_ok hne htrie
    have hfit := typosFit_iff.mpr hstorable
    rcases hrest with hedit | ⟨es, hes, hsize⟩
    · rw [Trie.entries, hpairs] at hedit
      obtain ⟨p, hp, he⟩ := exists_of_flatten_eq_error hstorable hspelled hedit
      exact .edit hfit ⟨p, hp, he, inexpressible_of_ofPair he⟩
    · obtain ⟨size, rfl, hreach, hle⟩ := Layout.narrowest_eq_error hsize
      have hflat := flattened_eq_ok.mpr ⟨trie, htrie, hes⟩
      rw [Trie.entries, hpairs] at hes
      refine .size hfit ((exists_flatten_of_spelledBy hstorable hspelled).mp ⟨es, hes⟩) ?_
      exact ⟨es, size, hflat, hreach, hle, rfl⟩

theorem Refusal.not_acceptable (h : Refusal name ps e) : ¬ Acceptable ps := by
  intro hps
  cases h with
  | empty hempty => exact hps.nonempty hempty
  | typo hfit => exact hfit hps.typos
  | edit _ hedit =>
    obtain ⟨p, hp, he, -⟩ := hedit
    obtain ⟨edit, hok⟩ := hps.edits p hp
    rw [he] at hok
    cases hok
  | size _ _ hsize =>
    obtain ⟨es, size, hes, hreach, hle, -⟩ := hsize
    have := hps.size es hes
    omega

/-- No stage blames one of the others. -/
theorem Refusal.not_internal (h : Refusal name ps e) : ¬ e.Internal := by
  intro he
  cases h with
  | empty _ heq =>
    rw [heq] at he
    exact he
  | typo _ hfault =>
    obtain ⟨_, p, _, -, -, hp⟩ := hfault
    cases e with
    | linkTooFar offset width => exact hp
    | unexpectedSize expected actual => exact hp
    | _ => exact he
  | edit _ hfault =>
    obtain ⟨p, -, -, hp⟩ := hfault
    cases e with
    | linkTooFar offset width => exact hp
    | unexpectedSize expected actual => exact hp
    | _ => exact he
  | size _ _ hsize =>
    obtain ⟨_, _, -, -, -, heq⟩ := hsize
    rw [heq] at he
    exact he

theorem acceptable_of_compile (h : compile name ps = .ok t) : Acceptable ps := by
  obtain ⟨tree, hc⟩ := compile_eq_ok.mp h
  refine ⟨hc.nonempty, typosFit_iff.mpr hc.storable, hc.edits, ?_⟩
  intro es hes
  rw [flattened_of_compile h] at hes
  cases hes
  have hfits := hc.layout_eq.2
  cases hw : t.layout.width with
  | two =>
    rw [hw] at hfits
    exact Layout.fits_three_of_fits_two hfits
  | three =>
    rw [hw] at hfits
    exact hfits

theorem exists_compile_iff : (∃ t, compile name ps = .ok t) ↔ Acceptable ps := by
  constructor
  · rintro ⟨t, h⟩
    exact acceptable_of_compile h
  · intro hps
    cases h : compile name ps with
    | ok t => exact ⟨t, rfl⟩
    | error e => exact ((refusal_of_compile h).not_acceptable hps).elim

/-- Exactly the acceptable pairs have a table, and the others are refused by the first stage that
cannot go on. Neither a link that is out of reach nor a wrong size is ever met. -/
theorem compile_iff_acceptable (name : String) (ps : List Pair) :
    ((∃ t, compile name ps = .ok t) ↔ Acceptable ps) ∧
    (∀ e, compile name ps = .error e → Refusal name ps e) ∧
    (∀ offset width, compile name ps ≠ .error (.linkTooFar offset width)) ∧
    ∀ expected actual, compile name ps ≠ .error (.unexpectedSize expected actual) := by
  refine ⟨exists_compile_iff, fun e h => refusal_of_compile h, ?_, ?_⟩
  · intro offset width h
    exact (refusal_of_compile h).not_internal trivial
  · intro expected actual h
    exact (refusal_of_compile h).not_internal trivial

/-- The edit of the first pair cannot be stored, but the typo of the second is looked at before. -/
theorem compile_iff_acceptable_foreign :
    Acceptable [⟨"hte", "the"⟩, ⟨"nad", "and"⟩] ∧
    compile "english" [⟨"abc", "abc"⟩, ⟨"t-h", "the"⟩] = .error (.foreignCharacter "t-h" '-') ∧
    Refusal "english" [⟨"abc", "abc"⟩, ⟨"t-h", "the"⟩] (.foreignCharacter "t-h" '-') := by
  have h : compile "english" [⟨"abc", "abc"⟩, ⟨"t-h", "the"⟩] =
      .error (.foreignCharacter "t-h" '-') := rfl
  exact ⟨(compile_iff_acceptable "english" _).1.mp exists_compile_hte, h,
    (compile_iff_acceptable "english" _).2.1 _ h⟩

end Table
end Emend
