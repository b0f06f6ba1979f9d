import Emend.Proofs.Trie.Insert

/-! Tries that insertions lead to, refused ones included. A refused pair leaves no trace, since a
descent that adds nodes cannot meet another typo any more. -/
namespace Emend.Trie
variable {t t' : Trie} {i k : Nat} {c : UInt8} {u codes : List UInt8} {p q : Pair} {s r : String}
  {e : CompileError}

/-- Each attempt to insert a pair goes on from what the ones before it have left. -/
inductive Built : Trie → Prop
  | empty : Built empty
  | insert {t : Trie} (p : Pair) : Built t → Built (t.insert p).1

/-! Refused pairs. -/

theorem node_added (t : Trie) (i : Nat) (c : UInt8) : (t.addChild i c).node t.size = {} := by
  have hsize : t.size = (t.nodes.modify i (·.addEdge c t.nodes.size)).size := by
    rw [Array.size_modify]
    rfl
  rw [node, addChild, hsize, Array.getElem?_push_size, Option.getD_some]

/-- From a node with nothing below it the descent adds a node at each step. -/
theorem descend_bare (codes : List UInt8) (hi : t.node i = {}) :
    ∃ t' j, t.descend i codes = (t', some j) ∧ t'.node j = {} := by
  induction codes generalizing t i with
  | nil => exact ⟨t, i, rfl, hi⟩
  | cons c codes ih =>
    obtain ⟨t', j, hdescend, hj⟩ := ih (node_added t i c)
    refine ⟨t', j, ?_, hj⟩
    rw [descend, hi]
    exact hdescend

/-- The descent keeps to nodes that were there, or it ends at one that was not. -/
theorem descend_cases (t : Trie) (i : Nat) (codes : List UInt8) :
    (t.descend i codes).1 = t ∨ ∃ t' j, t.descend i codes = (t', some j) ∧ t'.node j = {} := by
  induction codes generalizing i with
  | nil => exact Or.inl rfl
  | cons c codes ih =>
    by_cases hn : (t.node i).isComplete = true
    · rw [descend, if_pos hn]
      exact Or.inl rfl
    · cases hc : (t.node i).child? c with
      | some j =>
        simp only [descend, if_neg hn, hc]
        exact ih j
      | none =>
        simp only [descend, if_neg hn, hc]
        exact Or.inr (descend_bare codes (node_added t i c))

theorem eq_of_insert_error (h : t.insert p = (t', some e)) : t' = t := by
  by_cases hempty : p.typo.isEmpty = true
  · rw [insert, if_pos hempty] at h
    cases h
    rfl
  cases hcodes : codesOf p.typo with
  | error a =>
    simp only [insert, if_neg hempty, hcodes] at h
    cases h
    rfl
  | ok u =>
    simp only [insert, if_neg hempty, hcodes] at h
    rcases descend_cases t 0 u with hsame | ⟨t₁, j, hdescend, hj⟩
    · generalize t.descend 0 u = r at h hsame
      obtain ⟨t₁, r⟩ := r
      cases hsame
      cases r with
      | none =>
        cases h
        rfl
      | some j =>
        dsimp only at h
        split at h
        · cases h
          rfl
        · cases h
    · -- An added node is free, so the pair is taken.
      simp only [hdescend, hj] at h
      cases h

/-! From one insertion to the next. -/

theorem sound_insert (hs : t.Sound) (p : Pair) : (t.insert p).1.Sound := by
  have hspec := insert_spec (p := p) hs
  cases h : t.insert p with
  | mk t' r =>
    rw [h] at hspec
    cases r with
    | none => exact hspec.2.1
    | some e =>
      rw [eq_of_insert_error h]
      exact hs

theorem Built.sound (h : t.Built) : t.Sound := by
  induction h with
  | empty => exact sound_empty
  | insert p _ ih => exact sound_insert ih p

/-! What is stored. -/

theorem eq_of_codesOf_eq (hs : codesOf s = .ok u) (hr : codesOf r = .ok u) : s = r := by
  rw [codesOf_eq_ok, keys?_eq_some] at hs hr
  exact String.toList_inj.mp (Alphabet.map_code?_injective hs hr)

theorem bind_pairAt?_eq_some :
    (t.follow? u).bind t.pairAt? = some q ↔ ∃ k, t.Completes u k ∧ t.pairs[k]? = some q := by
  simp only [Option.bind_eq_some_iff, pairAt?, Completes]
  constructor
  · rintro ⟨i, hi, k, hk, hq⟩
    exact ⟨k, ⟨i, hi, hk⟩, hq⟩
  · rintro ⟨k, ⟨i, hi, hk⟩, hq⟩
    exact ⟨i, hi, k, hk, hq⟩

/-- Exactly the stored pairs are found under their typos. -/
theorem Sound.get?_eq_some (hs : t.Sound) : t.get? s = some q ↔ q ∈ t.pairs ∧ q.typo = s := by
  rw [get?]
  constructor
  · intro h
    cases hu : codesOf s with
    | error c =>
      rw [hu] at h
      cases h
    | ok u =>
      rw [hu] at h
      obtain ⟨k, hcompletes, hq⟩ := bind_pairAt?_eq_some.mp h
      obtain ⟨r, hr, hru⟩ := hs.stored.mp hcompletes
      rw [hq] at hr
      cases hr
      exact ⟨Array.mem_of_getElem? hq, eq_of_codesOf_eq hru hu⟩
  · rintro ⟨hq, rfl⟩
    obtain ⟨u, hu⟩ := codesOf_of_typeable (hs.typeable q hq)
    obtain ⟨k, hk⟩ := Array.mem_iff_getElem?.mp hq
    rw [hu]
    exact bind_pairAt?_eq_some.mpr ⟨k, hs.stored.mpr ⟨q, hk, hu⟩, hk⟩

theorem accepts_iff : t.Accepts p ↔ p.typo ≠ "" ∧
    (∀ c ∈ p.typo.toList, Alphabet.contains c = true) ∧ ∀ q ∈ t.pairs,
      ¬ q.typo.toList <:+ p.typo.toList ∧ ¬ p.typo.toList <:+ q.typo.toList := by
  rw [Accepts, Pair.typeable_iff, and_assoc]
  rfl

/-- A pair is taken if its typo has characters, all of them have codes, and neither it nor a stored
typo ends the other. It then joins the pairs, each of which is still found. Otherwise nothing
changes, not even a node. -/
theorem insert_exact (h : t.Built) (p : Pair) :
    ((t.insert p).2 = none ↔ p.typo ≠ "" ∧
      (∀ c ∈ p.typo.toList, Alphabet.contains c = true) ∧ ∀ q ∈ t.pairs,
        ¬ q.typo.toList <:+ p.typo.toList ∧ ¬ p.typo.toList <:+ q.typo.toList) ∧
    ((t.insert p).2 = none → (t.insert p).1.pairs = t.pairs.push p ∧
      ∀ q ∈ t.pairs.push p, (t.insert p).1.get? q.typo = some q) ∧
    ((t.insert p).2 ≠ none → (t.insert p).1 = t) := by
  have hspec := insert_spec (p := p) h.sound
  rw [← accepts_iff]
  cases hinsert : t.insert p with
  | mk t' r =>
    rw [hinsert] at hspec
    cases r with
    | none =>
      obtain ⟨haccepts, hs, hpairs⟩ := hspec
      refine ⟨⟨fun _ => haccepts, fun _ => rfl⟩, fun _ => ⟨hpairs, ?_⟩, fun hne => (hne rfl).elim⟩
      intro q hq
      rw [← hpairs] at hq
      exact hs.get?_eq_some.mpr ⟨hq, rfl⟩
    | some e =>
      refine ⟨⟨fun hnone => ?_, fun haccepts => (hspec haccepts).elim⟩, fun hnone => ?_, ?_⟩
      · cases hnone
      · cases hnone
      · exact fun _ => eq_of_insert_error hinsert

/-- The stored typo ends `whte`, which was refused before, and `te` ends it. With `ate` it shares no
more than an ending. -/
theorem insert_exact_hte : ∃ t : Trie, t.Built ∧ t.pairs = #[⟨"hte", "the"⟩] ∧
    (t.insert ⟨"te", "et"⟩).1 = t ∧
    (t.insert ⟨"ate", "eat"⟩).1.pairs = #[⟨"hte", "the"⟩, ⟨"ate", "eat"⟩] ∧
    (t.insert ⟨"ate", "eat"⟩).1.get? "hte" = some ⟨"hte", "the"⟩ := by
  have h : ((empty.insert ⟨"hte", "the"⟩).1.insert ⟨"whte", "white"⟩).1.Built :=
    .insert _ (.insert _ .empty)
  have hpairs : ((empty.insert ⟨"hte", "the"⟩).1.insert ⟨"whte", "white"⟩).1.pairs =
      #[⟨"hte", "the"⟩] := by decide +kernel
  obtain ⟨hpush, hfound⟩ := (insert_exact h ⟨"ate", "eat"⟩).2.1 (by decide +kernel)
  rw [hpairs] at hpush hfound
  exact ⟨_, h, hpairs, (insert_exact h ⟨"te", "et"⟩).2.2 (by decide +kernel), hpush,
    hfound ⟨"hte", "the"⟩ (by simp)⟩

end Emend.Trie
