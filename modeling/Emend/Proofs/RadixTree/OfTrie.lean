import Emend.Proofs.RadixTree.Words
import Emend.Proofs.Trie.Insert

/-! The radix tree of a trie is canonical and spells the codes of the stored typos. -/
namespace Emend.RadixTree
open Alphabet (IsCode)

variable {t : Trie} {n : Node} {i j k : Nat} {c : UInt8} {u v : List UInt8}
  {f g : Nat → RadixTree}

/-! One node. -/

theorem ofNode_of_pair (h : n.pair = some k) : ofNode f n = leaf k := by
  simp only [ofNode, h]

theorem ofNode_of_edge (h : n.pair = none) (he : n.edges = [(c, j)]) :
    ofNode f n = (f j).prepend c := by
  simp only [ofNode, h, he]

theorem ofNode_of_edges (h : n.pair = none) (he : n.edges.length ≠ 1) :
    ofNode f n = branch (n.edges.map fun e => (e.1, f e.2)) := by
  obtain ⟨edges, pair⟩ := n
  subst h
  match edges, he with
  | [], _ => rfl
  | [_], he => exact (he rfl).elim
  | _ :: _ :: _, _ => rfl

theorem ofNode_congr (h : ∀ e ∈ n.edges, f e.2 = g e.2) : ofNode f n = ofNode g n := by
  cases hn : n.pair with
  | some k => rw [ofNode_of_pair hn, ofNode_of_pair hn]
  | none =>
    by_cases hlen : n.edges.length = 1
    · obtain ⟨⟨c, j⟩, he⟩ := List.length_eq_one_iff.mp hlen
      rw [ofNode_of_edge hn he, ofNode_of_edge hn he, h (c, j) (by simp [he])]
    · rw [ofNode_of_edges hn hlen, ofNode_of_edges hn hlen]
      congr 1
      exact List.map_congr_left fun e he => by rw [h e he]

/-- A node that is not complete spells what its children spell, after the code of the edge. -/
theorem spells_ofNode (hasc : Ascending n.edges) (hn : n.pair = none) :
    Spells (ofNode f n) u k ↔ ∃ c j v, n.child? c = some j ∧ u = c :: v ∧ Spells (f j) v k := by
  have hchild : ∀ c j, n.child? c = some j ↔ (c, j) ∈ n.edges := fun c j => hasc.lookup_eq_some
  simp only [hchild]
  by_cases hlen : n.edges.length = 1
  · obtain ⟨⟨c, j⟩, he⟩ := List.length_eq_one_iff.mp hlen
    rw [ofNode_of_edge hn he, spells_prepend, he]
    constructor
    · rintro ⟨v, rfl, h⟩
      exact ⟨c, j, v, by simp, rfl, h⟩
    · rintro ⟨_, _, v, hm, rfl, h⟩
      cases List.mem_singleton.mp hm
      exact ⟨v, rfl, h⟩
  · rw [ofNode_of_edges hn hlen, spells_branch]
    constructor
    · rintro ⟨_, _, v, hm, rfl, h⟩
      obtain ⟨⟨c, j⟩, hm', he⟩ := List.mem_map.mp hm
      cases he
      exact ⟨c, j, v, hm', rfl, h⟩
    · rintro ⟨c, j, v, hm, rfl, h⟩
      exact ⟨c, f j, v, List.mem_map.mpr ⟨(c, j), hm, rfl⟩, rfl, h⟩

theorem canonical_ofNode (hasc : Ascending n.edges) (hn : n.pair = none) (hne : n.edges ≠ [])
    (hcode : ∀ e ∈ n.edges, IsCode e.1) (hf : ∀ e ∈ n.edges, Canonical (f e.2)) :
    Canonical (ofNode f n) := by
  by_cases hlen : n.edges.length = 1
  · obtain ⟨⟨c, j⟩, he⟩ := List.length_eq_one_iff.mp hlen
    have hm : (c, j) ∈ n.edges := by simp [he]
    rw [ofNode_of_edge hn he]
    exact .prepend (hcode _ hm) (hf _ hm)
  · have hpos := List.length_pos_iff.mpr hne
    rw [ofNode_of_edges hn hlen]
    refine .branch ?_ ((Ascending.map_snd f).mpr hasc) ?_ ?_
    · rw [List.length_map]
      omega
    · rw [List.forall_mem_map]
      exact hcode
    · rw [List.forall_mem_map]
      exact hf

/-! All nodes. -/

/-- The tree of node `i`. -/
def ofTrieAt (t : Trie) (i : Nat) : RadixTree :=
  (ofNodes t.nodes)[t.nodes.size - 1 - i]?.getD (branch [])

theorem ofTrie_eq : ofTrie t = ofTrieAt t 0 := rfl

/-- Trees made from nodes that come last first; `total` counts the nodes of the whole trie. -/
def stack (total : Nat) (ns : List Node) : Array RadixTree :=
  ns.foldr (fun n trees =>
    trees.push (ofNode (fun j => trees[total - 1 - j]?.getD (branch [])) n)) #[]

theorem ofNodes_eq (nodes : Array Node) : ofNodes nodes = stack nodes.size nodes.toList := by
  rw [ofNodes, stack, ← Array.foldr_toList]

theorem size_stack (total : Nat) (ns : List Node) : (stack total ns).size = ns.length := by
  induction ns with
  | nil => rfl
  | cons n ns ih =>
    rw [stack, List.foldr_cons, Array.size_push, List.length_cons]
    exact congrArg (· + 1) ih

theorem stack_cons (total : Nat) (n : Node) (ns : List Node) : stack total (n :: ns) =
    (stack total ns).push
      (ofNode (fun j => (stack total ns)[total - 1 - j]?.getD (branch [])) n) := rfl

/-- Trees keep their places as more nodes are taken. -/
theorem getElem?_stack_append {total : Nat} (ms ns : List Node) (h : i < ns.length) :
    (stack total (ms ++ ns))[i]? = (stack total ns)[i]? := by
  induction ms with
  | nil => rfl
  | cons m ms ih =>
    have hlt : i < (stack total (ms ++ ns)).size := by
      rw [size_stack, List.length_append]
      omega
    rw [List.cons_append, stack_cons, Array.getElem?_push_lt hlt, ← ih,
      Array.getElem?_eq_getElem hlt]

/-- The trees of later nodes are already there when the tree of a node is made. -/
theorem ofTrieAt_eq (hs : t.Shaped) (hi : i < t.size) :
    ofTrieAt t i = ofNode (ofTrieAt t) (t.node i) := by
  have hi' : i < t.nodes.toList.length := hi
  have hsize : t.nodes.size = t.nodes.toList.length := rfl
  have hnode : t.node i = t.nodes.toList[i] := by
    rw [Trie.node, Array.getElem?_eq_getElem hi]
    rfl
  have hcons : t.nodes.toList.drop i = t.node i :: t.nodes.toList.drop (i + 1) := by
    rw [hnode, ← List.drop_eq_getElem_cons hi']
  have hcut : ∀ j k, j < (t.nodes.toList.drop k).length →
      (ofNodes t.nodes)[j]? = (stack t.nodes.size (t.nodes.toList.drop k))[j]? := by
    intro j k hj
    rw [← getElem?_stack_append (t.nodes.toList.take k) _ hj, List.take_append_drop, ofNodes_eq]
  have hlater : ∀ e ∈ (t.node i).edges,
      (stack t.nodes.size (t.nodes.toList.drop (i + 1)))[t.nodes.size - 1 - e.2]?.getD
        (branch []) = ofTrieAt t e.2 := by
    intro e he
    have hfwd := hs.lt_of_mem_edges he
    unfold Trie.size at hfwd
    rw [ofTrieAt, hcut _ (i + 1) (by rw [List.length_drop]; omega)]
  have htop : t.nodes.size - 1 - i = (stack t.nodes.size (t.nodes.toList.drop (i + 1))).size := by
    rw [size_stack, List.length_drop]
    omega
  rw [ofTrieAt, hcut _ i (by rw [List.length_drop]; omega), hcons, stack_cons, htop,
    Array.getElem?_push_size, Option.getD_some]
  exact ofNode_congr hlater

theorem spells_ofTrieAt (hs : t.Shaped) (hi : i < t.size) :
    Spells (ofTrieAt t i) u k ↔ ∃ j, t.followFrom i u = some j ∧ (t.node j).pair = some k := by
  induction u generalizing i with
  | nil =>
    rw [ofTrieAt_eq hs hi]
    cases hn : (t.node i).pair with
    | some l => simp [ofNode_of_pair hn, spells_leaf, Trie.followFrom, hn, eq_comm]
    | none => simp [spells_ofNode (hs.ascending i) hn, Trie.followFrom, hn]
  | cons c u ih =>
    rw [ofTrieAt_eq hs hi, Trie.followFrom_cons]
    cases hn : (t.node i).pair with
    | some l => simp [ofNode_of_pair hn, spells_leaf, Node.child?, hs.closed hn]
    | none =>
      rw [spells_ofNode (hs.ascending i) hn]
      constructor
      · rintro ⟨_, j, _, hj, heq, h⟩
        cases heq
        rw [hj]
        exact (ih (hs.forward hj).2).mp h
      · rintro ⟨l, hl, hk⟩
        obtain ⟨j, hj, hl⟩ := Option.bind_eq_some_iff.mp hl
        exact ⟨c, j, u, hj, rfl, (ih (hs.forward hj).2).mpr ⟨l, hl, hk⟩⟩

/-- In a trie that holds something, each path leads on to a complete typo. -/
theorem exists_completes (hs : t.Sound) (hne : t.pairs ≠ #[]) (hu : t.follow? u = some i) :
    ∃ v k, t.Completes (u ++ v) k := by
  rcases hs.needed (by rw [hu]; rfl) with rfl | h
  · obtain ⟨p, hp⟩ := Array.exists_mem_of_ne_empty t.pairs hne
    obtain ⟨v, k, -, hk⟩ := hs.completes_of_mem hp
    exact ⟨v, k, hk⟩
  · exact h

/-- So a node that is not complete has edges. -/
theorem edges_ne_nil (hs : t.Sound) (hne : t.pairs ≠ #[]) (hu : t.follow? u = some i)
    (hn : (t.node i).pair = none) : (t.node i).edges ≠ [] := by
  intro hedges
  obtain ⟨v, k, j, hj, hk⟩ := exists_completes hs hne hu
  rw [Trie.follow?, Trie.followFrom_append, show t.followFrom 0 u = some i from hu,
    Option.bind_some] at hj
  cases v with
  | nil =>
    cases hj
    rw [hn] at hk
    cases hk
  | cons c v =>
    rw [Trie.followFrom_cons, Node.child?, hedges] at hj
    cases hj

theorem isCode_of_completes (hs : t.Sound) (h : t.Completes u k) : ∀ c ∈ u, IsCode c := by
  obtain ⟨p, -, hp⟩ := hs.mem_of_completes h
  intro c hc
  exact isCode_of_keys? (Trie.codesOf_eq_ok.mp hp) c (List.mem_reverse.mpr hc)

theorem canonical_ofTrieAt (hs : t.Sound) (hne : t.pairs ≠ #[]) (hi : i < t.size) :
    Canonical (ofTrieAt t i) := by
  induction hm : t.size - i using Nat.strongRecOn generalizing i with
  | ind m ih =>
    rw [ofTrieAt_eq hs.toShaped hi]
    obtain ⟨u, hu⟩ := hs.reached hi
    have hchild : ∀ e ∈ (t.node i).edges, (t.node i).child? e.1 = some e.2 := fun e he =>
      (hs.ascending i).lookup_eq_some.mpr he
    cases hn : (t.node i).pair with
    | some k =>
      rw [ofNode_of_pair hn]
      exact .leaf k
    | none =>
      refine canonical_ofNode (hs.ascending i) hn (edges_ne_nil hs hne hu hn) ?_ ?_
      · intro e he
        have hj := (Trie.follow?_snoc hu).trans (hchild e he)
        obtain ⟨v, k, hk⟩ := exists_completes hs hne hj
        exact isCode_of_completes hs hk e.1 (by simp)
      · intro e he
        have hfwd := hs.lt_of_mem_edges he
        exact ih (t.size - e.2) (by omega) hfwd.2 rfl

theorem spells_ofTrie (hs : t.Sound) :
    Spells (ofTrie t) u k ↔ ∃ p, t.pairs[k]? = some p ∧ Trie.codesOf p.typo = .ok u := by
  rw [ofTrie_eq, spells_ofTrieAt hs.toShaped hs.nonempty]
  exact hs.stored

theorem canonical_ofTrie (hs : t.Sound) (hne : t.pairs ≠ #[]) : Canonical (ofTrie t) :=
  canonical_ofTrieAt hs hne hs.nonempty

end Emend.RadixTree
