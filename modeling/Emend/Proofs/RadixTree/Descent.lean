import Emend.Proofs.RadixTree.OfTrie

/-! Walks down a trie by node numbers, with a bound on their steps. As edges lead to later nodes, no
walk takes more steps than there are nodes, and the tree that is found is the tree of the trie. -/
namespace Emend

namespace Node

/-- The only edge of a node that is not complete. -/
def soleEdge? (n : Node) : Option (UInt8 × Nat) :=
  match n.pair, n.edges with
  | none, [e] => some e
  | _, _ => none

theorem soleEdge?_eq_some {n : Node} {e : UInt8 × Nat} :
    n.soleEdge? = some e ↔ n.pair = none ∧ n.edges = [e] := by
  obtain ⟨edges, pair⟩ := n
  match pair, edges with
  | some k, _ => simp [soleEdge?]
  | none, [] => simp [soleEdge?]
  | none, [f] => simp [soleEdge?]
  | none, _ :: _ :: _ => simp [soleEdge?]

end Node

namespace Trie

/-- Follows single edges from node `i` to the first node that is complete or has another number of
edges. Gives the codes on the way and that node, or nothing if it has not come after `steps`
nodes. -/
def chainWithin (t : Trie) : Nat → Nat → Option (List UInt8 × Nat)
  | 0, _ => none
  | steps + 1, i => match (t.node i).soleEdge? with
    | some (c, j) => (t.chainWithin steps j).map fun (codes, last) => (c :: codes, last)
    | none => some ([], i)

/-- The tree of node `i`: a leaf, or one chain for a run of single edges, or a branch. Nothing if
the calls nest deeper than `depth`, or if a run has not ended after `steps` nodes. -/
def treeWithin (t : Trie) (steps : Nat) : Nat → Nat → Option RadixTree
  | 0, _ => none
  | depth + 1, i => match (t.node i).pair, (t.node i).edges with
    | some pair, _ => some (.leaf pair)
    | none, [(c, j)] => (t.chainWithin steps j).bind fun run =>
      (t.treeWithin steps depth run.2).map (.chain (c :: run.1))
    | none, edges =>
      (edges.mapM fun e => (t.treeWithin steps depth e.2).map (e.1, ·)).map .branch

end Trie

namespace RadixTree
variable {t : Trie} {tree : RadixTree} {n : Node} {i steps depth : Nat} {c : UInt8}
  {codes : List UInt8} {f : Nat → RadixTree}

/-! Chains. -/

/-- Whether a tree begins with a chain. -/
def isChain : RadixTree → Bool
  | chain _ _ => true
  | _ => false

theorem isChain_ofNode (h : n.soleEdge? = none) : (ofNode f n).isChain = false := by
  cases hn : n.pair with
  | some k =>
    rw [ofNode_of_pair hn]
    rfl
  | none =>
    rw [ofNode_of_edges hn]
    · rfl
    · intro hlen
      obtain ⟨e, he⟩ := List.length_eq_one_iff.mp hlen
      rw [Node.soleEdge?_eq_some.mpr ⟨hn, he⟩] at h
      cases h

/-- Codes put in front one by one make one chain. -/
theorem prepend_foldr (h : tree.isChain = false) (c : UInt8) (codes : List UInt8) :
    (codes.foldr prepend tree).prepend c = chain (c :: codes) tree := by
  induction codes generalizing c with
  | nil => cases tree with
    | leaf k => rfl
    | chain codes next => cases h
    | branch children => rfl
  | cons d codes ih => rw [List.foldr_cons, ih, prepend]

theorem chainWithin_spec (hs : t.Shaped) (hi : i < t.size) (hsteps : t.size ≤ i + steps) :
    ∃ codes last, t.chainWithin steps i = some (codes, last) ∧ i ≤ last ∧ last < t.size ∧
      (t.node last).soleEdge? = none ∧
      ofTrieAt t i = codes.foldr prepend (ofTrieAt t last) := by
  induction steps generalizing i with
  | zero => omega
  | succ steps ih =>
    rw [Trie.chainWithin]
    cases hsole : (t.node i).soleEdge? with
    | none => exact ⟨[], i, rfl, Nat.le_refl i, hi, hsole, rfl⟩
    | some e =>
      obtain ⟨c, j⟩ := e
      obtain ⟨hn, he⟩ := Node.soleEdge?_eq_some.mp hsole
      have hfwd := hs.lt_of_mem_edges (he ▸ List.mem_singleton_self (c, j))
      obtain ⟨codes, last, hchain, hle, hlast, hend, htree⟩ := ih hfwd.2 (by omega)
      refine ⟨c :: codes, last, by simp [hchain], by omega, hlast, hend, ?_⟩
      rw [ofTrieAt_eq hs hi, ofNode_of_edge hn he, htree, List.foldr_cons]

/-! Trees. -/

theorem treeWithin_eq (hs : t.Shaped) (hsteps : t.size ≤ steps) (hi : i < t.size)
    (hdepth : t.size ≤ i + depth) : t.treeWithin steps depth i = some (ofTrieAt t i) := by
  induction depth generalizing i with
  | zero => omega
  | succ depth ih =>
    rw [ofTrieAt_eq hs hi, Trie.treeWithin]
    have hlater : ∀ e ∈ (t.node i).edges, t.treeWithin steps depth e.2 = some (ofTrieAt t e.2) := by
      intro e he
      have hfwd := hs.lt_of_mem_edges he
      exact ih hfwd.2 (by omega)
    cases hn : (t.node i).pair with
    | some k => rw [ofNode_of_pair hn]
    | none =>
      by_cases hlen : (t.node i).edges.length = 1
      · obtain ⟨⟨c, j⟩, he⟩ := List.length_eq_one_iff.mp hlen
        have hfwd := hs.lt_of_mem_edges (he ▸ List.mem_singleton_self (c, j))
        have hbound : t.size ≤ j + steps := Nat.le_add_left_of_le hsteps
        obtain ⟨codes, last, hchain, hle, hlast, hend, htree⟩ := chainWithin_spec hs hfwd.2 hbound
        have hnot : (ofTrieAt t last).isChain = false := by
          rw [ofTrieAt_eq hs hlast]
          exact isChain_ofNode hend
        rw [ofNode_of_edge hn he, htree, prepend_foldr hnot]
        simp only [he, hchain, Option.bind_some, ih hlast (by omega), Option.map_some]
      · have hchildren : ((t.node i).edges.mapM fun e =>
            (t.treeWithin steps depth e.2).map (e.1, ·)) =
              some ((t.node i).edges.map fun e => (e.1, ofTrieAt t e.2)) := by
          refine mapM_eq_some_map fun e he => ?_
          rw [hlater e he, Option.map_some]
        rw [ofNode_of_edges hn hlen]
        split
        next h => cases h
        next he =>
          rw [he] at hlen
          exact (hlen rfl).elim
        next => rw [hchildren, Option.map_some]

theorem treeWithin_root (hs : t.Shaped) (hsteps : t.size ≤ steps) (hdepth : t.size ≤ depth) :
    t.treeWithin steps depth 0 = some (ofTrie t) := by
  rw [ofTrie_eq]
  exact treeWithin_eq hs hsteps hs.nonempty (by omega)

end RadixTree
end Emend
