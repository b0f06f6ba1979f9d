import Emend.Proofs.RadixTree.Descent
import Emend.Proofs.Trie.Lookup
import Mathlib.Data.List.Dedup
import Mathlib.Data.List.Infix

/-! The nodes of a trie as the endings of its typos. Each ending has one node, and an edge leads to
the ending that has one character more in front. -/
namespace Emend.Trie
variable {t : Trie} {i j k : Nat} {c : UInt8} {u : List UInt8} {r s : List Char}

/-- The node of a text, which is read last character first. -/
def nodeOf? (t : Trie) (s : List Char) : Option Nat :=
  (s.mapM Alphabet.code?).bind fun keys => t.follow? keys.reverse

/-- The endings of the stored typos, each once. The empty text is one even if nothing is stored. -/
def endings (t : Trie) : List (List Char) :=
  ([] :: t.pairs.toList.flatMap fun q => q.typo.toList.tails).dedup

/-- The trie has one node for each ending of its typos and no other one. -/
structure IsSuffixTrie (t : Trie) : Prop where
  size : t.size = t.endings.length
  root : t.nodeOf? [] = some 0
  isSome : ∀ s, (t.nodeOf? s).isSome ↔ s ∈ t.endings
  lt : ∀ s i, t.nodeOf? s = some i → i < t.size
  unique : ∀ i < t.size, ∃! s, t.nodeOf? s = some i
  edges : ∀ s i, t.nodeOf? s = some i → ∀ c j,
    (c, j) ∈ (t.node i).edges ↔ ∃ a, Alphabet.code? a = some c ∧ t.nodeOf? (a :: s) = some j
  ascending : ∀ i, Ascending (t.node i).edges
  forward : ∀ i c j, (c, j) ∈ (t.node i).edges → i < j ∧ j < t.size
  parent : ∀ j, 0 < j → j < t.size → ∃! e : Nat × UInt8, (e.2, j) ∈ (t.node e.1).edges
  pair : ∀ s i, t.nodeOf? s = some i → ∀ k,
    (t.node i).pair = some k ↔ ∃ q, t.pairs[k]? = some q ∧ q.typo.toList = s
  bare : ∀ i < t.size, (t.node i).edges = [] ↔
    (t.node i).isComplete = true ∨ i = 0 ∧ t.isEmpty = true

/-! Endings and paths. -/

theorem mem_endings : s ∈ t.endings ↔ s = [] ∨ ∃ q ∈ t.pairs, s <:+ q.typo.toList := by
  simp [endings]

theorem nodeOf?_eq_some : t.nodeOf? s = some i ↔
    ∃ keys : List UInt8, s.map Alphabet.code? = keys.map some ∧
      t.follow? keys.reverse = some i := by
  simp only [nodeOf?, Option.bind_eq_some_iff, Alphabet.mapM_code?_eq_some]

/-- Each path spells an ending. -/
theorem Sound.exists_ending (hs : t.Sound) (h : (t.follow? u).isSome) :
    ∃ s ∈ t.endings, s.map Alphabet.code? = u.reverse.map some := by
  rcases hs.isSome_follow?.mp h with rfl | ⟨q, hq, keys, hkeys, hu⟩
  · exact ⟨[], mem_endings.mpr (Or.inl rfl), rfl⟩
  · obtain ⟨front, hfront⟩ := List.reverse_suffix.mpr hu
    rw [List.reverse_reverse] at hfront
    have hcodes := keys?_eq_some.mp hkeys
    rw [← hfront, List.map_append] at hcodes
    obtain ⟨r, s, hcut, -, hcodes⟩ := List.map_eq_append_iff.mp hcodes
    exact ⟨s, mem_endings.mpr (Or.inr ⟨q, hq, r, hcut.symm⟩), hcodes⟩

theorem Sound.isSome_nodeOf? (hs : t.Sound) : (t.nodeOf? s).isSome ↔ s ∈ t.endings := by
  constructor
  · intro h
    obtain ⟨i, hi⟩ := Option.isSome_iff_exists.mp h
    obtain ⟨keys, hkeys, hfollow⟩ := nodeOf?_eq_some.mp hi
    obtain ⟨r, hr, hcodes⟩ := hs.exists_ending (by rw [hfollow]; rfl)
    rw [List.reverse_reverse] at hcodes
    rwa [Alphabet.map_code?_injective hkeys hcodes]
  · intro h
    rcases mem_endings.mp h with rfl | ⟨q, hq, r, hcut⟩
    · rfl
    · obtain ⟨keys, hkeys⟩ := Option.isSome_iff_exists.mp (hs.typeable q hq).2
      have hcodes := keys?_eq_some.mp hkeys
      rw [← hcut, List.map_append] at hcodes
      obtain ⟨front, back, rfl, -, hback⟩ := List.append_eq_map_iff.mp hcodes
      have hfollow : (t.follow? back.reverse).isSome := by
        refine hs.isSome_follow?.mpr (Or.inr ⟨q, hq, _, hkeys, ?_⟩)
        exact List.reverse_prefix.mpr (List.suffix_append front back)
      obtain ⟨i, hi⟩ := Option.isSome_iff_exists.mp hfollow
      exact Option.isSome_iff_exists.mpr ⟨i, nodeOf?_eq_some.mpr ⟨back, hback.symm, hi⟩⟩

theorem Shaped.nodeOf?_lt (hs : t.Shaped) (h : t.nodeOf? s = some i) : i < t.size := by
  obtain ⟨keys, -, hfollow⟩ := nodeOf?_eq_some.mp h
  exact hs.follow?_lt hfollow

theorem Shaped.nodeOf?_injective (hs : t.Shaped) (hr : t.nodeOf? r = some i)
    (h : t.nodeOf? s = some i) : r = s := by
  obtain ⟨keys, hkeys, hfollow⟩ := nodeOf?_eq_some.mp hr
  obtain ⟨keys', hkeys', hfollow'⟩ := nodeOf?_eq_some.mp h
  rw [← List.reverse_inj.mp (hs.unique hfollow hfollow')] at hkeys'
  exact Alphabet.map_code?_injective hkeys hkeys'

theorem Sound.exists_nodeOf? (hs : t.Sound) (hi : i < t.size) : ∃ s, t.nodeOf? s = some i := by
  obtain ⟨u, hu⟩ := hs.reached hi
  obtain ⟨s, -, hcodes⟩ := hs.exists_ending (by rw [hu]; rfl)
  exact ⟨s, nodeOf?_eq_some.mpr ⟨u.reverse, hcodes, by rw [List.reverse_reverse, hu]⟩⟩

/-- Endings are as many as nodes, since each has a node of its own. -/
theorem Sound.size_eq (hs : t.Sound) : t.size = t.endings.length := by
  have hnodup : (t.endings.map t.nodeOf?).Nodup := by
    refine List.Nodup.map_on ?_ (List.nodup_dedup _)
    intro r hr s _ heq
    obtain ⟨i, hi⟩ := Option.isSome_iff_exists.mp (hs.isSome_nodeOf?.mpr hr)
    exact hs.nodeOf?_injective hi (heq ▸ hi)
  have hrange : ((List.range t.size).map some).Nodup :=
    List.Nodup.map (fun _ _ => Option.some.inj) List.nodup_range
  have hperm : ((List.range t.size).map some).Perm (t.endings.map t.nodeOf?) := by
    refine (List.perm_ext_iff_of_nodup hrange hnodup).mpr fun node => ?_
    simp only [List.mem_map, List.mem_range]
    constructor
    · rintro ⟨i, hi, rfl⟩
      obtain ⟨s, hs'⟩ := hs.exists_nodeOf? hi
      exact ⟨s, hs.isSome_nodeOf?.mp (by rw [hs']; rfl), hs'⟩
    · rintro ⟨s, hmem, rfl⟩
      obtain ⟨i, hi⟩ := Option.isSome_iff_exists.mp (hs.isSome_nodeOf?.mpr hmem)
      exact ⟨i, hs.nodeOf?_lt hi, hi.symm⟩
  have hlength := hperm.length_eq
  rwa [List.length_map, List.length_map, List.length_range] at hlength

/-! Edges. -/

theorem Shaped.mem_edges (hs : t.Shaped) (hu : t.follow? u = some i) :
    (c, j) ∈ (t.node i).edges ↔ t.follow? (u ++ [c]) = some j := by
  rw [follow?_snoc hu, Node.child?, (hs.ascending i).lookup_eq_some]

theorem Sound.mem_edges_iff (hs : t.Sound) (h : t.nodeOf? s = some i) :
    (c, j) ∈ (t.node i).edges ↔ ∃ a, Alphabet.code? a = some c ∧ t.nodeOf? (a :: s) = some j := by
  obtain ⟨keys, hkeys, hfollow⟩ := nodeOf?_eq_some.mp h
  rw [hs.mem_edges hfollow]
  constructor
  · intro hj
    obtain ⟨r, -, hcodes⟩ := hs.exists_ending (by rw [hj]; rfl)
    rw [List.reverse_concat, List.reverse_reverse] at hcodes
    obtain ⟨a, r, rfl, ha, hr⟩ := List.map_eq_cons_iff.mp hcodes
    obtain rfl := Alphabet.map_code?_injective hr hkeys
    refine ⟨a, ha, nodeOf?_eq_some.mpr ⟨c :: keys, ?_, by rw [List.reverse_cons, hj]⟩⟩
    rw [List.map_cons, ha, hr, List.map_cons]
  · rintro ⟨a, ha, hj⟩
    obtain ⟨keys', hkeys', hfollow'⟩ := nodeOf?_eq_some.mp hj
    rw [List.map_cons, ha, hkeys, ← List.map_cons] at hkeys'
    obtain rfl := (List.map_inj_right fun _ _ => Option.some.inj).mp hkeys'
    rwa [List.reverse_cons] at hfollow'

/-- A path that is not empty comes by one edge. -/
theorem Shaped.existsUnique_parent (hs : t.Shaped) (hpos : 0 < j) (hj : j < t.size) :
    ∃! e : Nat × UInt8, (e.2, j) ∈ (t.node e.1).edges := by
  obtain ⟨u, hu⟩ := hs.reached hj
  rcases List.eq_nil_or_concat' u with rfl | ⟨v, c, rfl⟩
  · cases hu
    omega
  · have hv : (t.follow? v).isSome :=
      follow?_prefix (by rw [hu]; rfl) (List.prefix_append v [c])
    obtain ⟨i, hi⟩ := Option.isSome_iff_exists.mp hv
    refine ⟨(i, c), (hs.mem_edges hi).mpr hu, ?_⟩
    rintro ⟨i', c'⟩ he
    have hlt := hs.lt_of_mem_edges he
    obtain ⟨v', hi'⟩ := hs.reached (Nat.lt_trans hlt.1 hlt.2)
    have hpath := hs.unique ((hs.mem_edges hi').mp he) hu
    obtain ⟨rfl, hc⟩ := List.append_inj' hpath rfl
    rw [hi] at hi'
    cases hi'
    cases hc
    rfl

/-! Complete nodes. -/

theorem Sound.pair_iff (hs : t.Sound) (h : t.nodeOf? s = some i) :
    (t.node i).pair = some k ↔ ∃ q, t.pairs[k]? = some q ∧ q.typo.toList = s := by
  obtain ⟨keys, hkeys, hfollow⟩ := nodeOf?_eq_some.mp h
  have hcompletes : t.Completes keys.reverse k ↔ (t.node i).pair = some k := by
    simp [Completes, hfollow]
  rw [← hcompletes, hs.stored]
  refine exists_congr fun q => and_congr_right fun _ => ?_
  rw [codesOf_eq_ok, List.reverse_reverse, keys?_eq_some]
  exact ⟨fun hq => Alphabet.map_code?_injective hq hkeys, fun hq => by rw [hq, hkeys]⟩

/-- Nodes without edges are the complete ones, but for the root of a trie that holds nothing. -/
theorem Sound.edges_eq_nil_iff (hs : t.Sound) (hi : i < t.size) : (t.node i).edges = [] ↔
    (t.node i).isComplete = true ∨ i = 0 ∧ t.isEmpty = true := by
  rw [isEmpty, Array.isEmpty_iff]
  constructor
  · intro hedges
    refine or_iff_not_imp_left.mpr fun hn => ?_
    obtain ⟨u, hu⟩ := hs.reached hi
    have hnone : t.pairs = #[] := by
      by_contra hne
      exact RadixTree.edges_ne_nil hs hne hu (pair_eq_none_of_not_complete hn) hedges
    rcases hs.isSome_follow?.mp (by rw [hu]; rfl) with rfl | ⟨q, hq, -⟩
    · cases hu
      exact ⟨rfl, hnone⟩
    · rw [hnone] at hq
      simp at hq
  · rintro (hcomplete | ⟨rfl, hnone⟩)
    · obtain ⟨k, hk⟩ := Option.isSome_iff_exists.mp hcomplete
      exact hs.closed hk
    · by_contra hne
      obtain ⟨c, j, hc⟩ := Node.exists_child hne
      have hfollow : t.follow? ([] ++ [c]) = some j := (follow?_snoc rfl).trans hc
      rcases hs.isSome_follow?.mp (by rw [hfollow]; rfl) with h | ⟨q, hq, -⟩
      · cases h
      · rw [hnone] at hq
        simp at hq

theorem Sound.isSuffixTrie (hs : t.Sound) : t.IsSuffixTrie where
  size := hs.size_eq
  root := rfl
  isSome _ := hs.isSome_nodeOf?
  lt _ _ h := hs.nodeOf?_lt h
  unique i hi := by
    obtain ⟨s, h⟩ := hs.exists_nodeOf? hi
    exact ⟨s, h, fun r hr => hs.nodeOf?_injective hr h⟩
  edges _ _ h _ _ := hs.mem_edges_iff h
  ascending := hs.ascending
  forward _ _ _ h := hs.lt_of_mem_edges h
  parent _ hpos hj := hs.existsUnique_parent hpos hj
  pair _ _ h _ := hs.pair_iff h
  bare _ hi := hs.edges_eq_nil_iff hi

/-- However the insertions went, the trie has one node for each ending of a stored typo, with one
way to it and with the pair that is complete there. So runs of single edges end, from whichever
node, and so do the nested calls that make the radix tree. -/
theorem suffixTrie_of_built (h : t.Built) : t.IsSuffixTrie ∧
    (∀ i < t.size, ∀ steps, t.size ≤ steps → (t.chainWithin steps i).isSome) ∧
    ∀ steps depth, t.size ≤ steps → t.size ≤ depth →
      t.treeWithin steps depth 0 = some (RadixTree.ofTrie t) := by
  have hs := h.sound
  refine ⟨hs.isSuffixTrie, fun i hi steps hsteps => ?_, fun steps depth hsteps hdepth => ?_⟩
  · obtain ⟨codes, last, hchain, -⟩ := RadixTree.chainWithin_spec hs.toShaped hi
      (Nat.le_add_left_of_le hsteps)
    rw [hchain]
    rfl
  · exact RadixTree.treeWithin_root hs.toShaped hsteps hdepth

/-- `whte` was refused and has left no node. -/
theorem suffixTrie_of_built_hte : ∃ t : Trie, t.Built ∧
    t.pairs = #[⟨"hte", "the"⟩, ⟨"ate", "eat"⟩] ∧ t.endings.length = 5 ∧
    (∃! e : Nat × UInt8, (e.2, 4) ∈ (t.node e.1).edges) ∧ t.nodeOf? ['w', 'h', 't', 'e'] = none ∧
    (t.chainWithin 5 0).isSome ∧ t.treeWithin 5 5 0 = some (RadixTree.ofTrie t) := by
  have h : (((empty.insert ⟨"hte", "the"⟩).1.insert ⟨"whte", "white"⟩).1.insert
    ⟨"ate", "eat"⟩).1.Built := .insert _ (.insert _ (.insert _ .empty))
  have hsize : (((empty.insert ⟨"hte", "the"⟩).1.insert ⟨"whte", "white"⟩).1.insert
    ⟨"ate", "eat"⟩).1.size = 5 := by decide +kernel
  obtain ⟨hendings, hchain, htree⟩ := suffixTrie_of_built h
  refine ⟨_, h, by decide +kernel, hendings.size ▸ hsize,
    hendings.parent 4 (by decide) (by rw [hsize]; decide), by decide +kernel,
    hchain 0 (by rw [hsize]; decide) 5 (Nat.le_of_eq hsize),
    htree 5 5 (Nat.le_of_eq hsize) (Nat.le_of_eq hsize)⟩

end Emend.Trie
