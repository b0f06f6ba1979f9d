import Emend.Proofs.Alphabet
import Emend.Proofs.Trie.Paths

/-! Which pairs a trie takes, and what it then holds. The answer does not depend on the order of
the pairs: no typo may end another. -/
namespace Emend

namespace Pair

/-- Each character of the typo has a code, and there is one. -/
def Typeable (p : Pair) : Prop := p.typo.isEmpty = false ∧ (keys? p.typo).isSome

theorem typeable_iff {p : Pair} :
    p.Typeable ↔ p.typo ≠ "" ∧ ∀ c ∈ p.typo.toList, Alphabet.contains c = true := by
  rw [Typeable, keys?, Alphabet.isSome_mapM_code?, ← Bool.not_eq_true, String.isEmpty_iff]

/-- Neither typo ends the other. -/
def Apart (p q : Pair) : Prop :=
  ¬ p.typo.toList <:+ q.typo.toList ∧ ¬ q.typo.toList <:+ p.typo.toList

theorem Apart.symm {p q : Pair} (h : Apart p q) : Apart q p := ⟨h.2, h.1⟩

end Pair

/-- Pairs that a trie takes, in any order. -/
def Storable (ps : List Pair) : Prop := (∀ p ∈ ps, p.Typeable) ∧ ps.Pairwise Pair.Apart

namespace Trie
variable {t t' : Trie} {i j k : Nat} {c : UInt8} {u v w codes : List UInt8} {p q : Pair}

/-! The codes of a typo. -/

theorem foldl_pushCode_error (cs : List Char) (a : Char) :
    ∃ b, cs.foldl pushCode (.error a) = .error b := by
  induction cs generalizing a with
  | nil => exact ⟨a, rfl⟩
  | cons b cs ih => cases hb : Alphabet.code? b <;> simp only [List.foldl_cons, pushCode, hb, ih]

theorem foldl_pushCode_eq_ok {cs : List Char} {done : List UInt8} :
    cs.foldl pushCode (.ok done) = .ok u ↔
      ∃ ks, cs.mapM Alphabet.code? = some ks ∧ u = ks.reverse ++ done := by
  induction cs generalizing done with
  | nil => simp [eq_comm]
  | cons a cs ih =>
    cases ha : Alphabet.code? a with
    | none =>
      obtain ⟨b, hb⟩ := foldl_pushCode_error cs a
      simp [pushCode, ha, hb, List.mapM_cons]
    | some code =>
      simp only [List.foldl_cons, pushCode, ha, ih, List.mapM_cons]
      cases cs.mapM Alphabet.code? <;> simp

theorem codesOf_eq_ok {s : String} : codesOf s = .ok u ↔ keys? s = some u.reverse := by
  rw [codesOf, foldl_pushCode_eq_ok, keys?]
  constructor
  · rintro ⟨ks, hks, rfl⟩
    simpa using hks
  · intro h
    exact ⟨u.reverse, h, by simp⟩

theorem prefix_iff_of_codesOf (hp : codesOf p.typo = .ok u) (hq : codesOf q.typo = .ok v) :
    u <+: v ↔ p.typo.toList <:+ q.typo.toList := by
  rw [suffix_iff_of_keys? (codesOf_eq_ok.mp hp) (codesOf_eq_ok.mp hq), List.reverse_suffix]

/-! Descending. -/

/-- The typo of pair `k` is complete where path `u` ends. -/
def Completes (t : Trie) (u : List UInt8) (k : Nat) : Prop :=
  ∃ i, t.follow? u = some i ∧ (t.node i).pair = some k

/-- A trie with the nodes on the path `u` that were missing from `t`. -/
structure Extends (t t' : Trie) (u : List UInt8) : Prop where
  shaped : t'.Shaped
  pairs : t'.pairs = t.pairs
  pair : ∀ i, (t'.node i).pair = (t.node i).pair
  keeps : ∀ {v i}, t.follow? v = some i → t'.follow? v = some i
  covers : ∀ {v}, (t'.follow? v).isSome ↔ (t.follow? v).isSome ∨ v <+: u

theorem extends_self (hs : t.Shaped) (hu : t.follow? u = some i) : Extends t t u := by
  refine ⟨hs, rfl, fun _ => rfl, id, ?_⟩
  intro v
  refine ⟨Or.inl, fun h => h.elim id fun hp => ?_⟩
  exact follow?_prefix (by rw [hu]; rfl) hp

theorem extends_addChild (hs : t.Shaped) (hu : t.follow? u = some i)
    (hc : (t.node i).child? c = none) (hn : (t.node i).pair = none) :
    Extends t (t.addChild i c) (u ++ [c]) := by
  refine ⟨shaped_addChild hs hu hc hn, rfl, fun _ => pair_addChild (hs.follow?_lt hu), ?_, ?_⟩
  · intro v j hv
    exact (follow?_addChild hs hu hc).mpr (Or.inl hv)
  · intro v
    constructor
    · intro h
      obtain ⟨j, hj⟩ := Option.isSome_iff_exists.mp h
      rcases (follow?_addChild hs hu hc).mp hj with hv | ⟨_, rfl⟩
      · exact Or.inl (by rw [hv]; rfl)
      · exact Or.inr (List.prefix_refl _)
    · rintro (h | h)
      · obtain ⟨j, hj⟩ := Option.isSome_iff_exists.mp h
        rw [(follow?_addChild hs hu hc).mpr (Or.inl hj)]
        rfl
      · refine follow?_prefix ?_ h
        rw [(follow?_addChild hs hu hc).mpr (Or.inr ⟨rfl, rfl⟩)]
        rfl

theorem Extends.trans {t'' : Trie} (h : Extends t t' u) (h' : Extends t' t'' v)
    (hp : u <+: v) : Extends t t'' v := by
  refine ⟨h'.shaped, h'.pairs.trans h.pairs, fun i => (h'.pair i).trans (h.pair i),
    fun hv => h'.keeps (h.keeps hv), ?_⟩
  intro w
  rw [h'.covers, h.covers]
  constructor
  · rintro ((hw | hw) | hw)
    · exact Or.inl hw
    · exact Or.inr (hw.trans hp)
    · exact Or.inr hw
  · rintro (hw | hw)
    · exact Or.inl (Or.inl hw)
    · exact Or.inr hw

/-- The nodes that were missing are not complete. -/
theorem Extends.completes (h : Extends t t' u) (hs : t.Shaped) :
    t'.Completes v k ↔ t.Completes v k := by
  constructor
  · rintro ⟨i, hv, hk⟩
    rw [h.pair] at hk
    have hi : i < t.size := by
      refine Nat.lt_of_not_le fun hle => ?_
      rw [node_of_size_le hle] at hk
      cases hk
    obtain ⟨w, hw⟩ := hs.reached hi
    obtain rfl := h.shaped.unique (h.keeps hw) hv
    exact ⟨i, hw, hk⟩
  · rintro ⟨i, hv, hk⟩
    exact ⟨i, h.keeps hv, (h.pair i).trans hk⟩

theorem pair_eq_none_of_not_complete (h : ¬ (t.node i).isComplete = true) :
    (t.node i).pair = none := by
  simpa [Node.isComplete] using h

/-- The descent ends where the path ends, unless a typo is complete earlier. -/
theorem descend_spec (codes : List UInt8) (hs : t.Shaped) (hu : t.follow? u = some i) :
    match t.descend i codes with
    | (t', some j) => Extends t t' (u ++ codes) ∧ t'.follow? (u ++ codes) = some j ∧
        ∀ v k, v <+: codes → v ≠ codes → ¬ t.Completes (u ++ v) k
    | (_, none) => ∃ v k, v <+: codes ∧ v ≠ codes ∧ t.Completes (u ++ v) k := by
  induction codes generalizing t u i with
  | nil =>
    rw [descend]
    refine ⟨by simpa using extends_self hs hu, by simpa using hu, ?_⟩
    intro v k hv hne
    exact (hne (List.prefix_nil.mp hv)).elim
  | cons c codes ih =>
    by_cases hn : (t.node i).isComplete = true
    · rw [descend, if_pos hn]
      obtain ⟨k, hk⟩ := Option.isSome_iff_exists.mp hn
      exact ⟨[], k, List.nil_prefix, by simp, i, by simpa using hu, hk⟩
    · have hpair := pair_eq_none_of_not_complete hn
      -- Either way the descent goes on in a trie in which the path `u ++ [c]` exists.
      have hstep : ∃ t₁ j, Extends t t₁ (u ++ [c]) ∧ t₁.follow? (u ++ [c]) = some j ∧
          t.descend i (c :: codes) = t₁.descend j codes := by
        cases hc : (t.node i).child? c with
        | some j =>
          have hj := (follow?_snoc hu).trans hc
          exact ⟨t, j, extends_self hs hj, hj, by simp only [descend, if_neg hn, hc]⟩
        | none =>
          exact ⟨t.addChild i c, t.size, extends_addChild hs hu hc hpair,
            (follow?_addChild hs hu hc).mpr (Or.inr ⟨rfl, rfl⟩),
            by simp only [descend, if_neg hn, hc, size]⟩
      obtain ⟨t₁, j, hext, hj, heq⟩ := hstep
      have hrest := ih hext.shaped hj
      have happ : ∀ w, u ++ [c] ++ w = u ++ c :: w := by simp
      simp only [happ, hext.completes hs] at hrest
      rw [heq]
      generalize t₁.descend j codes = r at hrest ⊢
      obtain ⟨t', r⟩ := r
      cases r with
      | some l =>
        obtain ⟨hext', hl, hfree⟩ := hrest
        refine ⟨hext.trans hext' ⟨codes, happ codes⟩, hl, ?_⟩
        intro v k hv hne hk
        rcases List.prefix_cons_iff.mp hv with rfl | ⟨w, rfl, hw⟩
        · obtain ⟨m, hm, hk⟩ := hk
          rw [List.append_nil, hu] at hm
          cases hm
          rw [hpair] at hk
          cases hk
        · exact hfree w k hw (fun he => hne (by rw [he])) hk
      | none =>
        obtain ⟨w, k, hw, hne, hk⟩ := hrest
        exact ⟨c :: w, k, by simpa using hw, by simpa using hne, hk⟩

/-! Completing a typo. -/

theorem node_complete (hi : i < t.size) :
    (t.complete i p).node j =
      if j = i then { t.node i with pair := some t.pairs.size } else t.node j := by
  unfold size at hi
  unfold node complete
  simp only [Array.getElem?_modify]
  by_cases hj : j = i
  · subst hj
    simp [hi]
  · simp [hj, Ne.symm hj]

theorem child?_complete (hi : i < t.size) :
    ((t.complete i p).node j).child? c = (t.node j).child? c := by
  rw [node_complete hi]
  split
  next hj => rw [hj]; rfl
  next => rfl

theorem follow?_complete (hi : i < t.size) : (t.complete i p).follow? u = t.follow? u := by
  have h : ∀ j, (t.complete i p).followFrom j u = t.followFrom j u := by
    induction u with
    | nil => exact fun _ => rfl
    | cons c u ih =>
      intro j
      rw [followFrom_cons, followFrom_cons, child?_complete hi]
      simp only [ih]
  exact h 0

theorem size_complete : (t.complete i p).size = t.size := by
  simp [complete, size]

theorem shaped_complete (hs : t.Shaped) (hi : i < t.size) (he : (t.node i).edges = []) :
    (t.complete i p).Shaped := by
  have hnode : ∀ j, ((t.complete i p).node j).edges = (t.node j).edges := by
    intro j
    rw [node_complete hi]
    split
    next hj => rw [hj]
    next => rfl
  refine ⟨by rw [size_complete]; exact hs.nonempty, ?_, ?_, ?_, ?_, ?_⟩
  · intro j
    rw [hnode]
    exact hs.ascending j
  · intro j c k hk
    rw [child?_complete hi] at hk
    rw [size_complete]
    exact hs.forward hk
  · intro v w k hv hw
    rw [follow?_complete hi] at hv hw
    exact hs.unique hv hw
  · intro k hk
    rw [size_complete] at hk
    obtain ⟨v, hv⟩ := hs.reached hk
    exact ⟨v, by rw [follow?_complete hi, hv]⟩
  · intro j k hk
    rw [hnode]
    by_cases hj : j = i
    · rw [hj, he]
    · rw [node_complete hi, if_neg hj] at hk
      exact hs.closed hk

/-- The completed typo joins those that were there. -/
theorem completes_complete (hs : t.Shaped) (hu : t.follow? u = some i)
    (hn : (t.node i).pair = none) :
    (t.complete i p).Completes v k ↔ t.Completes v k ∨ (v = u ∧ k = t.pairs.size) := by
  have hi := hs.follow?_lt hu
  simp only [Completes, follow?_complete hi, node_complete hi]
  constructor
  · rintro ⟨j, hj, hk⟩
    split at hk
    next hji =>
      cases hk
      exact Or.inr ⟨hs.unique hj (hji ▸ hu), rfl⟩
    next => exact Or.inl ⟨j, hj, hk⟩
  · rintro (⟨j, hj, hk⟩ | ⟨rfl, rfl⟩)
    · refine ⟨j, hj, ?_⟩
      have hji : j ≠ i := by
        rintro rfl
        rw [hn] at hk
        cases hk
      rw [if_neg hji, hk]
    · exact ⟨i, hu, by rw [if_pos rfl]⟩

/-! Inserting. -/

/-- What every trie keeps from one insertion to the next: its complete typos are those of its
pairs, and each node is on the way to one. -/
structure Sound (t : Trie) : Prop extends Shaped t where
  typeable : ∀ p ∈ t.pairs, p.Typeable
  stored : ∀ {u k}, t.Completes u k ↔ ∃ p, t.pairs[k]? = some p ∧ codesOf p.typo = .ok u
  needed : ∀ {u}, (t.follow? u).isSome → u = [] ∨ ∃ v k, t.Completes (u ++ v) k

theorem sound_empty : empty.Sound := by
  have hnode : ∀ i, empty.node i = {} := by
    intro i
    cases i <;> rfl
  have hchild : ∀ i c, (empty.node i).child? c = none := by
    intro i c
    rw [hnode]
    rfl
  have hfollow : ∀ {u i}, empty.follow? u = some i → u = [] ∧ i = 0 := by
    intro u i h
    cases u with
    | nil =>
      cases h
      exact ⟨rfl, rfl⟩
    | cons c u =>
      rw [follow?, followFrom_cons, hchild] at h
      cases h
  refine ⟨⟨Nat.one_pos, ?_, ?_, ?_, ?_, ?_⟩, ?_, ?_, ?_⟩
  · intro i
    rw [hnode]
    exact List.Pairwise.nil
  · intro i c j h
    rw [hchild] at h
    cases h
  · intro u v i hu hv
    rw [(hfollow hu).1, (hfollow hv).1]
  · intro i hi
    obtain rfl : i = 0 := by
      have : empty.size = 1 := rfl
      omega
    exact ⟨[], rfl⟩
  · intro i k h
    rw [hnode] at h
    cases h
  · intro p hp
    cases hp with | mk h => cases h
  · intro u k
    refine ⟨?_, ?_⟩
    · rintro ⟨i, _, hk⟩
      rw [hnode] at hk
      cases hk
    · rintro ⟨p, hp, _⟩
      cases hp
  · intro u hu
    obtain ⟨i, hi⟩ := Option.isSome_iff_exists.mp hu
    exact Or.inl (hfollow hi).1

theorem sound_complete (hs : t.Sound) (h : Extends t t' u) (hu : t'.follow? u = some i)
    (hp : p.Typeable) (hcodes : codesOf p.typo = .ok u) (hn : (t'.node i).pair = none)
    (he : (t'.node i).edges = []) : (t'.complete i p).Sound := by
  have hi := h.shaped.follow?_lt hu
  have hc : ∀ {v k}, (t'.complete i p).Completes v k ↔
      t.Completes v k ∨ (v = u ∧ k = t.pairs.size) := by
    intro v k
    rw [completes_complete h.shaped hu hn, h.completes hs.toShaped, h.pairs]
  have hpairs : (t'.complete i p).pairs = t.pairs.push p := by rw [complete, h.pairs]
  refine ⟨shaped_complete h.shaped hi he, ?_, ?_, ?_⟩
  · intro q hq
    rw [hpairs, Array.mem_push] at hq
    rcases hq with hq | rfl
    · exact hs.typeable q hq
    · exact hp
  · intro v k
    rw [hc, hs.stored, hpairs, Array.getElem?_push]
    by_cases hk : k = t.pairs.size
    · subst hk
      rw [Array.getElem?_size, if_pos rfl]
      constructor
      · rintro (⟨q, hq, _⟩ | ⟨rfl, _⟩)
        · cases hq
        · exact ⟨p, rfl, hcodes⟩
      · rintro ⟨q, hpq, hq⟩
        cases hpq
        rw [hcodes] at hq
        cases hq
        exact Or.inr ⟨rfl, rfl⟩
    · simp [hk]
  · intro v hv
    rw [follow?_complete hi, h.covers] at hv
    rcases hv with hv | ⟨w, rfl⟩
    · rcases hs.needed hv with hv | ⟨w, k, hw⟩
      · exact Or.inl hv
      · exact Or.inr ⟨w, k, hc.mpr (Or.inl hw)⟩
    · exact Or.inr ⟨w, t.pairs.size, hc.mpr (Or.inr ⟨rfl, rfl⟩)⟩

theorem codesOf_of_typeable (hp : p.Typeable) : ∃ u, codesOf p.typo = .ok u := by
  obtain ⟨ks, hks⟩ := Option.isSome_iff_exists.mp hp.2
  exact ⟨ks.reverse, codesOf_eq_ok.mpr (by rw [List.reverse_reverse, hks])⟩

/-- Where one of the stored pairs is complete. -/
theorem Sound.completes_of_mem (hs : t.Sound) (hq : q ∈ t.pairs) :
    ∃ v k, codesOf q.typo = .ok v ∧ t.Completes v k := by
  obtain ⟨v, hv⟩ := codesOf_of_typeable (hs.typeable q hq)
  obtain ⟨k, hk⟩ := Array.mem_iff_getElem?.mp hq
  exact ⟨v, k, hv, hs.stored.mpr ⟨q, hk, hv⟩⟩

theorem Sound.mem_of_completes (hs : t.Sound) (h : t.Completes v k) :
    ∃ q ∈ t.pairs, codesOf q.typo = .ok v := by
  obtain ⟨q, hq, hv⟩ := hs.stored.mp h
  exact ⟨q, Array.mem_of_getElem? hq, hv⟩

/-- The descent was stopped by a typo that ends `p`. -/
theorem not_apart_of_completes (hs : t.Sound) (hcodes : codesOf p.typo = .ok u) (hv : v <+: u)
    (h : t.Completes v k) : ¬ ∀ q ∈ t.pairs, q.Apart p := by
  intro hall
  obtain ⟨q, hq, hqv⟩ := hs.mem_of_completes h
  exact (hall q hq).1 ((prefix_iff_of_codesOf hqv hcodes).mp hv)

/-- The descent ended above a typo that `p` ends. -/
theorem not_apart_of_edge (hs : t.Sound) (hcodes : codesOf p.typo = .ok u)
    (h : (t.follow? (u ++ [c])).isSome) : ¬ ∀ q ∈ t.pairs, q.Apart p := by
  intro hall
  rcases hs.needed h with h | ⟨w, k, h⟩
  · simp at h
  · obtain ⟨q, hq, hqv⟩ := hs.mem_of_completes h
    have hp : u <+: u ++ [c] ++ w := ⟨[c] ++ w, by simp⟩
    exact (hall q hq).2 ((prefix_iff_of_codesOf hcodes hqv).mp hp)

/-- A descent that ends at a free node meets no typo that overlaps. -/
theorem apart_of_free (hs : t.Sound) (h : Extends t t' u) (hu : t'.follow? u = some i)
    (hcodes : codesOf p.typo = .ok u) (hfree : ∀ v k, v <+: u → v ≠ u → ¬ t.Completes v k)
    (hn : (t'.node i).pair = none) (he : (t'.node i).edges = []) :
    ∀ q ∈ t.pairs, q.Apart p := by
  intro q hq
  obtain ⟨v, k, hv, hk⟩ := hs.completes_of_mem hq
  have hne : v ≠ u := by
    rintro rfl
    obtain ⟨j, hj, hpair⟩ := (h.completes hs.toShaped).mpr hk
    rw [hu] at hj
    cases hj
    rw [hn] at hpair
    cases hpair
  refine ⟨fun hsuf => ?_, fun hsuf => ?_⟩
  · exact hfree v k ((prefix_iff_of_codesOf hv hcodes).mpr hsuf) hne hk
  · obtain ⟨w, rfl⟩ := (prefix_iff_of_codesOf hcodes hv).mpr hsuf
    obtain ⟨j, hj, _⟩ := hk
    cases w with
    | nil => simp at hne
    | cons c w =>
      have hc : (t'.follow? (u ++ [c])).isSome :=
        follow?_prefix (by rw [h.keeps hj]; rfl) ⟨w, by simp⟩
      rw [follow?_snoc hu, Node.child?, he] at hc
      cases hc

theorem Extends.edge (h : Extends t t' u) (hu : t'.follow? u = some i)
    (he : (t'.node i).edges ≠ []) : ∃ c, (t.follow? (u ++ [c])).isSome := by
  obtain ⟨c, j, hj⟩ := Node.exists_child he
  have hc : (t'.follow? (u ++ [c])).isSome := by rw [follow?_snoc hu, hj]; rfl
  rcases h.covers.mp hc with hc | hc
  · exact ⟨c, hc⟩
  · have hlen := hc.length_le
    simp only [List.length_append, List.length_singleton] at hlen
    omega

/-- The typo can be typed and overlaps none of the stored ones. -/
def Accepts (t : Trie) (p : Pair) : Prop := p.Typeable ∧ ∀ q ∈ t.pairs, q.Apart p

theorem insert_spec (hs : t.Sound) :
    match t.insert p with
    | (t', none) => t.Accepts p ∧ t'.Sound ∧ t'.pairs = t.pairs.push p
    | (_, some _) => ¬ t.Accepts p := by
  by_cases hempty : p.typo.isEmpty = true
  · simp only [insert, if_pos hempty]
    intro h
    rw [h.1.1] at hempty
    cases hempty
  · cases hcodes : codesOf p.typo with
    | error a =>
      simp only [insert, if_neg hempty, hcodes]
      rintro ⟨hp, -⟩
      obtain ⟨u, hu⟩ := codesOf_of_typeable hp
      rw [hcodes] at hu
      cases hu
    | ok u =>
      have hp : p.Typeable := ⟨by simpa using hempty, by rw [codesOf_eq_ok.mp hcodes]; rfl⟩
      have hd := descend_spec u hs.toShaped (show t.follow? [] = some 0 from rfl)
      simp only [insert, if_neg hempty, hcodes]
      generalize t.descend 0 u = r at hd ⊢
      obtain ⟨t', r⟩ := r
      cases r with
      | none =>
        obtain ⟨v, k, hv, -, hk⟩ := hd
        exact fun h => not_apart_of_completes hs hcodes hv hk h.2
      | some i =>
        obtain ⟨hext, hi, hfree⟩ := hd
        simp only [List.nil_append] at hext hi hfree
        cases hn : (t'.node i).pair with
        | some k =>
          simp only [Node.isComplete, hn, Option.isSome_some, Bool.true_or, if_true]
          have hk := (hext.completes hs.toShaped).mp ⟨i, hi, hn⟩
          exact fun h => not_apart_of_completes hs hcodes (List.prefix_refl u) hk h.2
        | none =>
          by_cases he : (t'.node i).edges = []
          · simp only [Node.isComplete, hn, he, Option.isSome_none, List.isEmpty_nil,
              Bool.not_true, Bool.or_self, Bool.false_eq_true, if_false]
            exact ⟨⟨hp, apart_of_free hs hext hi hcodes hfree hn he⟩,
              sound_complete hs hext hi hp hcodes hn he, by rw [complete, hext.pairs]⟩
          · have hne : (t'.node i).edges.isEmpty = false := by simpa using he
            simp only [Node.isComplete, hn, hne, Option.isSome_none, Bool.not_false,
              Bool.or_true, if_true]
            obtain ⟨c, hc⟩ := hext.edge hi he
            exact fun h => not_apart_of_edge hs hcodes hc h.2

/-- Pairs that can be added in any order. -/
def AcceptsAll (t : Trie) (ps : List Pair) : Prop :=
  Storable ps ∧ ∀ p ∈ ps, ∀ q ∈ t.pairs, q.Apart p

theorem acceptsAll_cons {ps : List Pair} (h : t'.pairs = t.pairs.push p) :
    t.AcceptsAll (p :: ps) ↔ t.Accepts p ∧ t'.AcceptsAll ps := by
  simp only [AcceptsAll, Accepts, Storable, h, Array.mem_push, List.forall_mem_cons,
    List.pairwise_cons]
  constructor
  · rintro ⟨⟨⟨hp, hps⟩, hapart, hpair⟩, hold, hall⟩
    refine ⟨⟨hp, hold⟩, ⟨hps, hpair⟩, ?_⟩
    rintro r hr q (hq | rfl)
    · exact hall r hr q hq
    · exact hapart r hr
  · rintro ⟨⟨hp, hold⟩, ⟨hps, hpair⟩, hall⟩
    exact ⟨⟨⟨hp, hps⟩, fun r hr => hall r hr p (Or.inr rfl), hpair⟩, hold,
      fun r hr q hq => hall r hr q (Or.inl hq)⟩

theorem insertAll_spec (ps : List Pair) (hs : t.Sound) :
    match t.insertAll ps with
    | .ok t' => t.AcceptsAll ps ∧ t'.Sound ∧ t'.pairs = t.pairs ++ ps.toArray
    | .error _ => ¬ t.AcceptsAll ps := by
  induction ps generalizing t with
  | nil => exact ⟨⟨⟨by simp, List.Pairwise.nil⟩, by simp⟩, hs, by simp⟩
  | cons p ps ih =>
    have hp := insert_spec (p := p) hs
    rw [insertAll]
    generalize t.insert p = r at hp ⊢
    obtain ⟨t₁, r⟩ := r
    cases r with
    | some e =>
      intro h
      exact hp ⟨h.1.1 p List.mem_cons_self, h.2 p List.mem_cons_self⟩
    | none =>
      obtain ⟨hp, hs₁, hpairs⟩ := hp
      have hrest := ih hs₁
      simp only [acceptsAll_cons hpairs]
      generalize t₁.insertAll ps = r at hrest ⊢
      cases r with
      | error e => exact fun h => hrest h.2
      | ok t' =>
        obtain ⟨hps, hs', hpairs'⟩ := hrest
        exact ⟨⟨hp, hps⟩, hs', by rw [hpairs', hpairs, Array.push_eq_append]; simp⟩

theorem acceptsAll_empty {ps : List Pair} : empty.AcceptsAll ps ↔ Storable ps :=
  ⟨And.left, fun h => ⟨h, fun _ _ _ hq => by cases hq with | mk hq => cases hq⟩⟩

theorem ofPairs_spec (ps : List Pair) :
    match ofPairs ps with
    | .ok t => Storable ps ∧ t.Sound ∧ t.pairs = ps.toArray
    | .error _ => ¬ Storable ps := by
  have h := insertAll_spec ps sound_empty
  rw [acceptsAll_empty] at h
  rw [ofPairs]
  generalize empty.insertAll ps = r at h ⊢
  cases r with
  | error e => exact h
  | ok t => exact ⟨h.1, h.2.1, by simpa [empty] using h.2.2⟩

end Trie
end Emend
