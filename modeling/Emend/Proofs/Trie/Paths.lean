import Emend.Proofs.Edges

/-! Paths from the root of a trie. Adding a node gives one new path and leaves the others as they
were, so a trie can be described by its paths alone. -/
namespace Emend.Trie
variable {t : Trie} {i j k : Nat} {c d : UInt8} {u v w : List UInt8}

/-- What every trie keeps, in the middle of an insertion too: edges ascend and lead to later nodes,
each node has exactly one path, and a complete node has no edges. -/
structure Shaped (t : Trie) : Prop where
  nonempty : 0 < t.size
  ascending : ∀ i, Ascending (t.node i).edges
  forward : ∀ {i c j}, (t.node i).child? c = some j → i < j ∧ j < t.size
  unique : ∀ {u v i}, t.follow? u = some i → t.follow? v = some i → u = v
  reached : ∀ {i}, i < t.size → ∃ u, t.follow? u = some i
  closed : ∀ {i k}, (t.node i).pair = some k → (t.node i).edges = []

theorem node_of_size_le (h : t.size ≤ i) : t.node i = {} := by
  rw [node, Array.getElem?_eq_none (show t.nodes.size ≤ i from h), Option.getD_none]

theorem child?_of_size_le (h : t.size ≤ i) : (t.node i).child? c = none := by
  rw [node_of_size_le h]
  rfl

theorem followFrom_cons :
    t.followFrom i (c :: u) = ((t.node i).child? c).bind fun j => t.followFrom j u := by
  rw [followFrom]
  cases (t.node i).child? c <;> rfl

theorem followFrom_append :
    t.followFrom i (u ++ v) = (t.followFrom i u).bind fun j => t.followFrom j v := by
  induction u generalizing i with
  | nil => rfl
  | cons c u ih =>
    rw [List.cons_append, followFrom_cons, followFrom_cons]
    cases (t.node i).child? c with
    | none => rfl
    | some j => exact ih

theorem follow?_snoc (h : t.follow? u = some i) :
    t.follow? (u ++ [c]) = (t.node i).child? c := by
  rw [follow?, followFrom_append, show t.followFrom 0 u = some i from h, Option.bind_some,
    followFrom_cons]
  cases (t.node i).child? c <;> rfl

theorem follow?_prefix (h : (t.follow? v).isSome) (hp : u <+: v) : (t.follow? u).isSome := by
  obtain ⟨w, rfl⟩ := hp
  rw [follow?, followFrom_append] at h
  rw [follow?]
  cases hu : t.followFrom 0 u with
  | none => simp [hu] at h
  | some i => rfl

namespace Shaped

theorem lt_of_mem_edges (hs : t.Shaped) (h : (c, j) ∈ (t.node i).edges) : i < j ∧ j < t.size :=
  hs.forward ((hs.ascending i).lookup_eq_some.mpr h)

theorem followFrom_lt (hs : t.Shaped) (hi : i < t.size) (h : t.followFrom i u = some j) :
    j < t.size := by
  induction u generalizing i with
  | nil =>
    cases h
    exact hi
  | cons c u ih =>
    rw [followFrom_cons] at h
    obtain ⟨k, hk, h⟩ := Option.bind_eq_some_iff.mp h
    exact ih (hs.forward hk).2 h

theorem follow?_lt (hs : t.Shaped) (h : t.follow? u = some i) : i < t.size :=
  hs.followFrom_lt hs.nonempty h

end Shaped

/-! Adding a child. -/

theorem size_addChild : (t.addChild i c).size = t.size + 1 := by
  simp [addChild, size]

theorem node_addChild (hi : i < t.size) :
    (t.addChild i c).node j = if j = i then (t.node i).addEdge c t.size else t.node j := by
  unfold size at hi ⊢
  unfold node addChild
  simp only [Array.getElem?_push, Array.getElem?_modify, Array.size_modify]
  rcases Nat.lt_trichotomy j t.nodes.size with hj | rfl | hj
  · rw [if_neg (show j ≠ t.nodes.size by omega)]
    by_cases hji : j = i
    · subst hji
      simp [hj]
    · rw [if_neg hji, if_neg (Ne.symm hji)]
  · rw [if_pos rfl, if_neg (show t.nodes.size ≠ i by omega)]
    simp
  · rw [if_neg (show j ≠ t.nodes.size by omega), if_neg (show i ≠ j by omega),
      if_neg (show j ≠ i by omega)]

theorem pair_addChild (hi : i < t.size) :
    ((t.addChild i c).node j).pair = (t.node j).pair := by
  rw [node_addChild hi]
  split
  next hj => rw [hj]; rfl
  next => rfl

theorem child?_addChild (hi : i < t.size) (hc : (t.node i).child? c = none) :
    ((t.addChild i c).node j).child? d =
      if j = i ∧ d = c then some t.size else (t.node j).child? d := by
  rw [node_addChild hi]
  by_cases hj : j = i
  · subst hj
    rw [if_pos rfl, Node.child?_addEdge hc]
    by_cases hd : d = c <;> simp [hd]
  · simp [hj]

theorem followFrom_addChild (hi : i < t.size) (hc : (t.node i).child? c = none)
    (h : t.followFrom j u = some k) : (t.addChild i c).followFrom j u = some k := by
  induction u generalizing j with
  | nil => exact h
  | cons d u ih =>
    rw [followFrom_cons] at h ⊢
    obtain ⟨m, hm, h⟩ := Option.bind_eq_some_iff.mp h
    have hne : ¬ (j = i ∧ d = c) := by
      rintro ⟨rfl, rfl⟩
      rw [hc] at hm
      cases hm
    rw [child?_addChild hi hc, if_neg hne, hm, Option.bind_some]
    exact ih h

/-- A path that is new ends in the added edge, since the added node has no edges of its own. -/
theorem followFrom_addChild_cases (hs : t.Shaped) (hi : i < t.size)
    (hc : (t.node i).child? c = none) (hj : j < t.size)
    (h : (t.addChild i c).followFrom j u = some k) :
    t.followFrom j u = some k ∨
      (k = t.size ∧ ∃ v, u = v ++ [c] ∧ t.followFrom j v = some i) := by
  induction u generalizing j with
  | nil => exact Or.inl h
  | cons d u ih =>
    rw [followFrom_cons, child?_addChild hi hc] at h
    split at h
    next hjd =>
      obtain ⟨rfl, rfl⟩ := hjd
      rw [Option.bind_some] at h
      cases u with
      | nil =>
        cases h
        exact Or.inr ⟨rfl, [], rfl, rfl⟩
      | cons e u =>
        rw [followFrom_cons, child?_addChild hi hc, if_neg (by omega),
          child?_of_size_le (Nat.le_refl _)] at h
        cases h
    next =>
      obtain ⟨m, hm, h⟩ := Option.bind_eq_some_iff.mp h
      rcases ih (hs.forward hm).2 h with hold | ⟨rfl, v, rfl, hv⟩
      · refine Or.inl ?_
        rw [followFrom_cons, hm, Option.bind_some, hold]
      · refine Or.inr ⟨rfl, d :: v, rfl, ?_⟩
        rw [followFrom_cons, hm, Option.bind_some, hv]

theorem follow?_addChild (hs : t.Shaped) (hu : t.follow? u = some i)
    (hc : (t.node i).child? c = none) :
    (t.addChild i c).follow? v = some k ↔
      t.follow? v = some k ∨ (k = t.size ∧ v = u ++ [c]) := by
  have hi := hs.follow?_lt hu
  constructor
  · intro h
    rcases followFrom_addChild_cases hs hi hc hs.nonempty h with hold | ⟨rfl, w, rfl, hw⟩
    · exact Or.inl hold
    · exact Or.inr ⟨rfl, by rw [hs.unique hw hu]⟩
  · rintro (hold | ⟨rfl, rfl⟩)
    · exact followFrom_addChild hi hc hold
    · have hu' : (t.addChild i c).follow? u = some i := followFrom_addChild hi hc hu
      rw [follow?_snoc hu', child?_addChild hi hc, if_pos ⟨rfl, rfl⟩]

/-- The new node hangs below node `i`, which is not complete. -/
theorem shaped_addChild (hs : t.Shaped) (hu : t.follow? u = some i)
    (hc : (t.node i).child? c = none) (hn : (t.node i).pair = none) :
    (t.addChild i c).Shaped := by
  have hi := hs.follow?_lt hu
  refine ⟨?_, ?_, ?_, ?_, ?_, ?_⟩
  · rw [size_addChild]
    omega
  · intro j
    rw [node_addChild hi]
    split
    next => exact Node.ascending_insertEdge (hs.ascending i) hc
    next => exact hs.ascending j
  · intro j d k hk
    rw [child?_addChild hi hc] at hk
    rw [size_addChild]
    split at hk
    next hjd =>
      cases hk
      omega
    next =>
      have := hs.forward hk
      omega
  · intro v w k hv hw
    rcases (follow?_addChild hs hu hc).mp hv with hv | ⟨rfl, rfl⟩ <;>
      rcases (follow?_addChild hs hu hc).mp hw with hw | ⟨hk, rfl⟩
    · exact hs.unique hv hw
    · have := hs.follow?_lt hv
      omega
    · have := hs.follow?_lt hw
      omega
    · rfl
  · intro k hk
    rw [size_addChild] at hk
    rcases Nat.lt_succ_iff_lt_or_eq.mp hk with hk | rfl
    · obtain ⟨v, hv⟩ := hs.reached hk
      exact ⟨v, (follow?_addChild hs hu hc).mpr (Or.inl hv)⟩
    · exact ⟨u ++ [c], (follow?_addChild hs hu hc).mpr (Or.inr ⟨rfl, rfl⟩)⟩
  · intro j k hk
    rw [pair_addChild hi] at hk
    have hji : j ≠ i := by
      rintro rfl
      rw [hn] at hk
      cases hk
    rw [node_addChild hi, if_neg hji]
    exact hs.closed hk

end Emend.Trie
