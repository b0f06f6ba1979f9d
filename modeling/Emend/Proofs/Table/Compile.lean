import Emend.Proofs.Layout.Bytes
import Emend.Proofs.RadixTree.OfTrie
import Emend.Table

/-! What a compiled table is made of: the one canonical tree that the typos spell, its entries, and
their bytes. -/
namespace Emend

/-- Leaf `k` is reached by the codes of typo `k`, last key first. -/
def RadixTree.SpelledBy (tree : RadixTree) (ps : List Pair) : Prop :=
  ∀ u k, Spells tree u k ↔ ∃ p, ps[k]? = some p ∧ Trie.codesOf p.typo = .ok u

namespace Table
variable {name : String} {ps : List Pair} {t : Table} {tree : RadixTree} {k : Nat} {p : Pair}

structure Compiled (name : String) (ps : List Pair) (t : Table) (tree : RadixTree) : Prop where
  nonempty : ps ≠ []
  storable : Storable ps
  canonical : tree.Canonical
  spelled : tree.SpelledBy ps
  flatten : tree.flatten ps.toArray 0 = .ok t.entries
  layout : Layout.narrowest name t.entries = .ok t.layout
  data : t.layout.encode t.entries = .ok t.data
  name : t.name = name
  pairs : t.pairs = ps.toArray
  shortest : t.shortest = storedLength (shortestTypo ps)
  longest : t.longest = storedLength (longestTypo ps)

/-- The typos that can be stored together spell a tree. -/
theorem ofPairs_eq_ok {trie : Trie} (hne : ps ≠ []) (h : Trie.ofPairs ps = .ok trie) :
    Storable ps ∧ (RadixTree.ofTrie trie).Canonical ∧ (RadixTree.ofTrie trie).SpelledBy ps ∧
      trie.pairs = ps.toArray := by
  have hspec := Trie.ofPairs_spec ps
  rw [h] at hspec
  obtain ⟨hps, hs, hpairs⟩ := hspec
  refine ⟨hps, RadixTree.canonical_ofTrie hs ?_, fun u k => ?_, hpairs⟩
  · rw [hpairs]
    simpa using hne
  · rw [RadixTree.spells_ofTrie hs, hpairs, List.getElem?_toArray]

theorem exists_ofPairs (hps : Storable ps) : ∃ trie, Trie.ofPairs ps = .ok trie := by
  have hspec := Trie.ofPairs_spec ps
  cases h : Trie.ofPairs ps with
  | ok trie => exact ⟨trie, rfl⟩
  | error e =>
    rw [h] at hspec
    exact (hspec hps).elim

theorem compile_nil : compile name [] = .error (.noPairs name) := rfl

theorem compile_of_ne_nil (hne : ps ≠ []) : compile name ps = do
    let trie ← Trie.ofPairs ps
    let entries ← trie.entries
    let layout ← Layout.narrowest name entries
    let data ← layout.encode entries
    return ⟨name, trie.pairs, entries, layout, data, storedLength (shortestTypo ps),
      storedLength (longestTypo ps)⟩ := by
  cases ps with
  | nil => exact (hne rfl).elim
  | cons p ps => rfl

theorem compile_eq_ok : compile name ps = .ok t ↔ ∃ tree, Compiled name ps t tree := by
  have hbind : compile name ps = .ok t ↔ ps ≠ [] ∧ ∃ trie, Trie.ofPairs ps = .ok trie ∧
      ∃ es, trie.entries = .ok es ∧ ∃ l, Layout.narrowest name es = .ok l ∧
      ∃ data, l.encode es = .ok data ∧ t = ⟨name, trie.pairs, es, l, data,
        storedLength (shortestTypo ps), storedLength (longestTypo ps)⟩ := by
    by_cases hne : ps = []
    · simp [hne, compile_nil]
    · simp only [compile_of_ne_nil hne, bind_eq_ok, pure_eq_ok]
      simp [hne]
  rw [hbind]
  constructor
  · rintro ⟨hne, trie, htrie, es, hes, l, hl, data, hdata, rfl⟩
    obtain ⟨hps, hcanonical, hspelled, hpairs⟩ := ofPairs_eq_ok hne htrie
    rw [Trie.entries, hpairs] at hes
    exact ⟨_, hne, hps, hcanonical, hspelled, hes, hl, hdata, rfl, hpairs, rfl, rfl⟩
  · rintro ⟨tree, h⟩
    obtain ⟨trie, htrie⟩ := exists_ofPairs h.storable
    obtain ⟨-, hcanonical, hspelled, hpairs⟩ := ofPairs_eq_ok h.nonempty htrie
    have htree : RadixTree.ofTrie trie = tree :=
      hcanonical.ext h.canonical fun u k => (hspelled u k).trans (h.spelled u k).symm
    refine ⟨h.nonempty, trie, htrie, t.entries, ?_, t.layout, h.layout, t.data, h.data, ?_⟩
    · rw [Trie.entries, htree, hpairs]
      exact h.flatten
    · rw [hpairs, ← h.pairs, ← h.name, ← h.shortest, ← h.longest]

/-! Pairs and their leaves. -/

theorem editOf_eq (hp : ps[k]? = some p) : editOf ps.toArray k = Edit.ofPair p := by
  rw [editOf, List.getElem?_toArray, hp, Option.getD_some]

theorem mem_leaves_of_spelledBy (hps : Storable ps) (h : tree.SpelledBy ps) :
    k ∈ tree.leaves ↔ ∃ p, ps[k]? = some p := by
  rw [RadixTree.mem_leaves]
  constructor
  · rintro ⟨u, hu⟩
    obtain ⟨p, hp, -⟩ := (h u k).mp hu
    exact ⟨p, hp⟩
  · rintro ⟨p, hp⟩
    obtain ⟨u, hu⟩ := Trie.codesOf_of_typeable (hps.1 p (List.mem_of_getElem? hp))
    exact ⟨u, (h u k).mpr ⟨p, hp, hu⟩⟩

/-- Each pair has one leaf. -/
theorem nodup_leaves_of_spelledBy (hc : tree.Canonical) (h : tree.SpelledBy ps) :
    tree.leaves.Nodup := by
  refine hc.nodup_leaves fun v w k hv hw => ?_
  obtain ⟨p, hp, hv⟩ := (h v k).mp hv
  obtain ⟨q, hq, hw⟩ := (h w k).mp hw
  rw [hp] at hq
  cases hq
  rw [hv] at hw
  exact Except.ok.inj hw

theorem exists_flatten_of_spelledBy (hps : Storable ps) (h : tree.SpelledBy ps) :
    (∃ es, tree.flatten ps.toArray 0 = .ok es) ↔ ∀ p ∈ ps, ∃ edit, Edit.ofPair p = .ok edit := by
  rw [RadixTree.exists_flatten]
  constructor
  · intro hedit p hp
    obtain ⟨k, hk⟩ := List.getElem?_of_mem hp
    rw [← editOf_eq hk]
    exact hedit k ((mem_leaves_of_spelledBy hps h).mpr ⟨p, hk⟩)
  · intro hedit k hk
    obtain ⟨p, hp⟩ := (mem_leaves_of_spelledBy hps h).mp hk
    rw [editOf_eq hp]
    exact hedit p (List.mem_of_getElem? hp)

/-! The compiled table. -/

namespace Compiled

theorem edits (h : Compiled name ps t tree) : ∀ p ∈ ps, ∃ edit, Edit.ofPair p = .ok edit :=
  (exists_flatten_of_spelledBy h.storable h.spelled).mp ⟨t.entries, h.flatten⟩

theorem layout_eq (h : Compiled name ps t tree) :
    t.layout = Layout.exact t.layout.width t.entries ∧
      Layout.Fits t.layout.width t.entries := by
  rcases Layout.narrowest_eq_ok.mp h.layout with ⟨hfits, hl⟩ | ⟨-, hfits, hl⟩
  · rw [hl]
    exact ⟨rfl, hfits⟩
  · rw [hl]
    exact ⟨rfl, hfits⟩

theorem links_lt (h : Compiled name ps t tree) :
    ∀ e ∈ t.entries, ∀ l ∈ e.links, l < t.entries.length := by
  intro e he l hl
  have := (RadixTree.links_flatten h.flatten).2 e he l hl
  omega

theorem bytes (h : Compiled name ps t tree) : t.data.data.toList =
    t.entries.flatMap (Layout.entryBytes t.layout.width (startOf t.layout.width t.entries)) := by
  obtain ⟨hl, hfits⟩ := h.layout_eq
  obtain ⟨data, hdata, hbytes⟩ := Layout.encode_exact hfits h.links_lt
  rw [← hl, h.data] at hdata
  cases hdata
  exact hbytes

theorem data_size (h : Compiled name ps t tree) :
    t.data.size = totalLength t.layout.width t.entries := by
  rw [← Layout.length_flatMap_entryBytes _ (startOf t.layout.width t.entries) _, ← h.bytes]
  rfl

theorem size (h : Compiled name ps t tree) :
    t.size = tree.byteLength t.layout.width (leafLength ps.toArray) := by
  rw [Table.size, h.data_size, RadixTree.totalLength_flatten _ h.flatten]

end Compiled

/-- A layout that was found can be filled with bytes. -/
theorem exists_encode {pairs : Array Pair} {es : List Entry} {l : Layout}
    (hes : tree.flatten pairs 0 = .ok es) (hl : Layout.narrowest name es = .ok l) :
    ∃ data, l.encode es = .ok data := by
  have hlinks : ∀ e ∈ es, ∀ i ∈ e.links, i < es.length := by
    intro e he i hi
    have := (RadixTree.links_flatten hes).2 e he i hi
    omega
  rcases Layout.narrowest_eq_ok.mp hl with ⟨hfits, rfl⟩ | ⟨-, hfits, rfl⟩
  · obtain ⟨data, hdata, -⟩ := Layout.encode_exact hfits hlinks
    exact ⟨data, hdata⟩
  · obtain ⟨data, hdata, -⟩ := Layout.encode_exact hfits hlinks
    exact ⟨data, hdata⟩

/-- Apart from the typos, the edits and the size of the tree, nothing can go wrong. -/
theorem exists_compile (hne : ps ≠ []) (hps : Storable ps)
    (hedit : ∀ p ∈ ps, ∃ edit, Edit.ofPair p = .ok edit)
    (hfits : ∀ tree : RadixTree, tree.Canonical → tree.SpelledBy ps →
      ∃ w : LinkWidth, tree.byteLength w (leafLength ps.toArray) ≤ w.reach) :
    ∃ t, compile name ps = .ok t := by
  obtain ⟨trie, htrie⟩ := exists_ofPairs hps
  obtain ⟨-, hcanonical, hspelled, hpairs⟩ := ofPairs_eq_ok hne htrie
  obtain ⟨es, hes⟩ := (exists_flatten_of_spelledBy hps hspelled).mpr hedit
  obtain ⟨w, hw⟩ := hfits _ hcanonical hspelled
  rw [← RadixTree.totalLength_flatten w hes] at hw
  obtain ⟨l, hl⟩ := Layout.exists_narrowest name hw
  obtain ⟨data, hdata⟩ := exists_encode hes hl
  exact ⟨⟨name, ps.toArray, es, l, data, _, _⟩, compile_eq_ok.mpr
    ⟨_, hne, hps, hcanonical, hspelled, hes, hl, hdata, rfl, rfl, rfl, rfl⟩⟩

theorem exists_compile_hte :
    ∃ t, compile "english" [⟨"hte", "the"⟩, ⟨"nad", "and"⟩] = .ok t :=
  exists_of_isOk (by decide +kernel)

end Table
end Emend
