import Mathlib.Data.List.Nodup
import Emend.Proofs.RadixTree.OfTrie

/-! The stops on the way through a radix tree. Each is made at a node of its own of the trie, so
there are no more of them than there are nodes. -/
namespace Emend.RadixTree

variable {t : RadixTree} {children : List (UInt8 × RadixTree)} {codes u v : List UInt8}
  {trie : Trie}

/-- The codes that lead to the leaves, to the chains and to the branches of a tree. -/
def stops : RadixTree → List (List UInt8)
  | leaf _ => [[]]
  | chain codes next => [] :: next.stops.map (codes ++ ·)
  | branch children => [] :: children.flatMap fun e => e.2.stops.map (e.1 :: ·)
decreasing_by
  · simp only [chain.sizeOf_spec]
    omega
  · simpa only [branch.sizeOf_spec] using sizeOf_child_lt ‹_›

/-- No two stops are made at one place, as chains have codes and branches choose between theirs. -/
theorem Canonical.nodup_stops (ht : Canonical t) : t.stops.Nodup := by
  induction t with
  | leaf k => simp [stops]
  | chain codes next ih =>
    obtain ⟨hne, -, hnext, -⟩ := ht.of_chain
    rw [stops, List.nodup_cons]
    refine ⟨?_, List.Nodup.map (List.append_right_injective codes) (ih hnext)⟩
    intro hnil
    obtain ⟨w, -, hw⟩ := List.mem_map.mp hnil
    exact hne (List.append_eq_nil_iff.mp hw).1
  | branch children ih =>
    obtain ⟨-, hasc, -, hc⟩ := ht.of_branch
    rw [stops, List.nodup_cons]
    constructor
    · intro hnil
      obtain ⟨e, -, hmap⟩ := List.mem_flatMap.mp hnil
      obtain ⟨w, -, hw⟩ := List.mem_map.mp hmap
      cases hw
    · rw [List.Nodup, List.pairwise_flatMap]
      constructor
      · intro e he
        exact List.Nodup.map (List.cons_injective (a := e.1)) (ih e he (hc e he))
      · refine hasc.imp fun {a b} hab v hv w hw heq => ?_
        obtain ⟨x, -, rfl⟩ := List.mem_map.mp hv
        obtain ⟨y, -, rfl⟩ := List.mem_map.mp hw
        rw [(List.cons.inj heq).1] at hab
        exact UInt8.lt_irrefl _ hab

/-- Each stop is on the way to a word. -/
theorem Canonical.exists_spells_of_mem_stops (ht : Canonical t) (hu : u ∈ t.stops) :
    ∃ v k, Spells t (u ++ v) k := by
  induction t generalizing u with
  | leaf k =>
    rw [stops, List.mem_singleton] at hu
    exact ⟨[], k, by rw [hu]; exact .leaf k⟩
  | chain codes next ih =>
    rw [stops, List.mem_cons] at hu
    rcases hu with rfl | hu
    · exact ht.exists_spells
    · obtain ⟨w, hw, rfl⟩ := List.mem_map.mp hu
      obtain ⟨v, k, hv⟩ := ih ht.of_chain.2.2.1 hw
      exact ⟨v, k, by rw [List.append_assoc]; exact .chain hv⟩
  | branch children ih =>
    rw [stops, List.mem_cons] at hu
    rcases hu with rfl | hu
    · exact ht.exists_spells
    · obtain ⟨e, he, hu⟩ := List.mem_flatMap.mp hu
      obtain ⟨w, hw, rfl⟩ := List.mem_map.mp hu
      obtain ⟨v, k, hv⟩ := ih e he (ht.of_branch.2.2.2 e he) hw
      exact ⟨v, k, .branch he hv⟩

theorem follow?_of_mem_stops (hs : trie.Sound) (hne : trie.pairs ≠ #[])
    (hu : u ∈ (ofTrie trie).stops) : ∃ i, trie.follow? u = some i := by
  obtain ⟨v, k, hv⟩ := (canonical_ofTrie hs hne).exists_spells_of_mem_stops hu
  obtain ⟨j, hj, -⟩ := hs.stored.mpr ((spells_ofTrie hs).mp hv)
  have hsome : (trie.follow? (u ++ v)).isSome := by
    rw [hj]
    rfl
  exact Option.isSome_iff_exists.mp (Trie.follow?_prefix hsome (List.prefix_append u v))

/-- The nodes at which the stops are made all differ, since a node has one path. -/
theorem length_stops_le (hs : trie.Sound) (hne : trie.pairs ≠ #[]) :
    (ofTrie trie).stops.length ≤ trie.size := by
  have hnodup : ((ofTrie trie).stops.map fun u => (trie.follow? u).getD 0).Nodup := by
    refine List.Nodup.map_on (fun u hu v hv heq => ?_) (canonical_ofTrie hs hne).nodup_stops
    obtain ⟨i, hi⟩ := follow?_of_mem_stops hs hne hu
    obtain ⟨j, hj⟩ := follow?_of_mem_stops hs hne hv
    simp only [hi, hj, Option.getD_some] at heq
    subst heq
    exact hs.unique hi hj
  have hsub : ((ofTrie trie).stops.map fun u => (trie.follow? u).getD 0) ⊆
      List.range trie.size := by
    intro n hn
    obtain ⟨u, hu, rfl⟩ := List.mem_map.mp hn
    obtain ⟨i, hi⟩ := follow?_of_mem_stops hs hne hu
    rw [hi, Option.getD_some, List.mem_range]
    exact hs.follow?_lt hi
  have hle := hnodup.length_le_of_subset hsub
  rwa [List.length_map, List.length_range] at hle

end Emend.RadixTree
