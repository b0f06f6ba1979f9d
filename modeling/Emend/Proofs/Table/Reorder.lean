import Emend.Proofs.Table.Compile

/-! Tables of the same pairs in another order. They differ in the numbers of the leaves alone. -/
namespace Emend

namespace Layout
variable {name : String} {l : Layout} {w : LinkWidth} {es : List Entry} {f : Nat → Nat}

theorem byteLength_renumber (w : LinkWidth) (f : Nat → Nat) (e : Entry) :
    (e.renumber f).byteLength w = e.byteLength w := by
  cases e <;> rfl

theorem placeFrom_renumber {offsets : Array UInt32} {position : Nat} :
    placeFrom w offsets position (es.map (Entry.renumber f)) = placeFrom w offsets position es := by
  induction es generalizing offsets position with
  | nil => rfl
  | cons e es ih => simp only [List.map_cons, placeFrom, byteLength_renumber, ih]

theorem narrowest_renumber :
    narrowest name (es.map (Entry.renumber f)) = narrowest name es := by
  simp only [narrowest, under, placeFrom_renumber]

theorem writeEntry_renumber (out : ByteArray) (e : Entry) :
    l.writeEntry out (e.renumber f) = l.writeEntry out e := by
  cases e <;> rfl

theorem writeEntries_renumber {out : ByteArray} :
    l.writeEntries out (es.map (Entry.renumber f)) = l.writeEntries out es := by
  induction es generalizing out with
  | nil => rfl
  | cons e es ih => simp only [List.map_cons, writeEntries, writeEntry_renumber, ih]

theorem encode_renumber : l.encode (es.map (Entry.renumber f)) = l.encode es := by
  simp only [encode, writeEntries_renumber]

end Layout

theorem EntryTally.ofEntries_renumber (f : Nat → Nat) (es : List Entry) :
    ofEntries (es.map (Entry.renumber f)) = ofEntries es := by
  have hadd : ∀ (n : EntryTally) (e : Entry), n.add (e.renumber f) = n.add e := by
    intro n e
    cases e <;> rfl
  simp only [ofEntries, List.foldl_map, hadd]

/-! New numbers for leaves. -/

/-- The number among `qs` of pair `k` of `ps`. -/
def numberIn (ps qs : List Pair) (k : Nat) : Nat := (ps[k]?.map fun p => qs.idxOf p).getD 0

namespace Table
variable {name : String} {ps qs : List Pair} {t u : Table} {tree : RadixTree} {k l : Nat}
  {p : Pair} {v : List UInt8}

theorem getElem?_numberIn (hk : ps[k]? = some p) (hp : p ∈ qs) :
    qs[numberIn ps qs k]? = some p := by
  have hlt : qs.idxOf p < qs.length := List.idxOf_lt_length_iff.mpr hp
  rw [numberIn, hk, Option.map_some, Option.getD_some, List.getElem?_eq_getElem hlt,
    List.getElem_idxOf]

theorem index_eq_of_storable (h : Storable ps) {i j : Nat} (hi : ps[i]? = some p)
    (hj : ps[j]? = some p) : i = j :=
  index_eq_of_pairwise h.2 hi hj (fun h => h.1 (List.suffix_refl _))
    fun h => h.1 (List.suffix_refl _)

theorem spells_numberIn (h : tree.SpelledBy ps) (hqs : Storable qs) (hsub : ∀ p ∈ ps, p ∈ qs) :
    RadixTree.Spells (tree.renumber (numberIn ps qs)) v l ↔
      ∃ p ∈ ps, qs[l]? = some p ∧ Trie.codesOf p.typo = .ok v := by
  rw [RadixTree.spells_renumber]
  constructor
  · rintro ⟨k, rfl, hk⟩
    obtain ⟨p, hp, hv⟩ := (h v k).mp hk
    have hmem := List.mem_of_getElem? hp
    exact ⟨p, hmem, getElem?_numberIn hp (hsub p hmem), hv⟩
  · rintro ⟨p, hmem, hp, hv⟩
    obtain ⟨k, hk⟩ := List.getElem?_of_mem hmem
    exact ⟨k, index_eq_of_storable hqs hp (getElem?_numberIn hk (hsub p hmem)),
      (h v k).mpr ⟨p, hk, hv⟩⟩

theorem editOf_numberIn (hk : ps[k]? = some p) (hp : p ∈ qs) :
    editOf qs.toArray (numberIn ps qs k) = editOf ps.toArray k := by
  rw [editOf_eq hk, editOf_eq (getElem?_numberIn hk hp)]

/-! Another order. -/

theorem storable_perm (hperm : ps.Perm qs) (h : Storable ps) : Storable qs :=
  ⟨fun p hp => h.1 p (hperm.mem_iff.mpr hp), (hperm.pairwise_iff Pair.Apart.symm).mp h.2⟩

theorem min?_perm {xs ys : List Nat} (h : xs.Perm ys) : xs.min? = ys.min? := by
  refine Option.ext fun n => ?_
  simp only [List.min?_eq_some_iff, h.mem_iff]

theorem max?_perm {xs ys : List Nat} (h : xs.Perm ys) : xs.max? = ys.max? := by
  refine Option.ext fun n => ?_
  simp only [List.max?_eq_some_iff, h.mem_iff]

theorem shortestTypo_perm (h : ps.Perm qs) : shortestTypo ps = shortestTypo qs := by
  rw [shortestTypo, min?_perm (h.map Pair.typoLength), shortestTypo]

theorem longestTypo_perm (h : ps.Perm qs) : longestTypo ps = longestTypo qs := by
  rw [longestTypo, max?_perm (h.map Pair.typoLength), longestTypo]

/-- The table of pairs in another order, made from the table of pairs in this one. -/
def reorder (t : Table) (ps qs : List Pair) : Table :=
  { t with pairs := qs.toArray, entries := t.entries.map (Entry.renumber (numberIn ps qs)) }

theorem Compiled.reorder (h : Compiled name ps t tree) (hperm : ps.Perm qs) :
    Compiled name qs (t.reorder ps qs) (tree.renumber (numberIn ps qs)) := by
  have hqs := storable_perm hperm h.storable
  have hsub : ∀ p ∈ ps, p ∈ qs := fun p => hperm.mem_iff.mp
  refine ⟨?_, hqs, h.canonical.renumber _, ?_, ?_, ?_, ?_, h.name, rfl, ?_, ?_⟩
  · rintro rfl
    exact h.nonempty hperm.eq_nil
  · intro v l
    rw [spells_numberIn h.spelled hqs hsub]
    constructor
    · rintro ⟨p, -, hp, hv⟩
      exact ⟨p, hp, hv⟩
    · rintro ⟨p, hp, hv⟩
      exact ⟨p, hperm.mem_iff.mpr (List.mem_of_getElem? hp), hp, hv⟩
  · refine RadixTree.flatten_renumber h.flatten fun k hk => ?_
    obtain ⟨p, hp⟩ := (mem_leaves_of_spelledBy h.storable h.spelled).mp hk
    exact editOf_numberIn hp (hsub p (List.mem_of_getElem? hp))
  · exact Layout.narrowest_renumber.trans h.layout
  · exact Layout.encode_renumber.trans h.data
  · rw [← shortestTypo_perm hperm]
    exact h.shortest
  · rw [← longestTypo_perm hperm]
    exact h.longest

/-- Tables that differ in the order of their pairs alone. -/
structure Reordered (t u : Table) : Prop where
  data : u.data = t.data
  layout : u.layout = t.layout
  counts : u.counts = t.counts
  shortest : u.shortest = t.shortest
  longest : u.longest = t.longest
  entries : ∃ f : Nat → Nat, u.entries = t.entries.map (Entry.renumber f) ∧
    ∀ k edit, .leaf k edit ∈ t.entries → ∃ p, t.pairs[k]? = some p ∧ u.pairs[f k]? = some p

theorem Compiled.reordered (h : Compiled name ps t tree) (hperm : ps.Perm qs) :
    Reordered t (t.reorder ps qs) := by
  refine ⟨rfl, rfl, EntryTally.ofEntries_renumber _ _, rfl, rfl, numberIn ps qs, rfl, ?_⟩
  intro k edit hmem
  have hk : k ∈ tree.leaves := by
    rw [← RadixTree.filterMap_pair?_flatten h.flatten]
    exact List.mem_filterMap.mpr ⟨_, hmem, rfl⟩
  obtain ⟨p, hp⟩ := (mem_leaves_of_spelledBy h.storable h.spelled).mp hk
  refine ⟨p, by rw [h.pairs, List.getElem?_toArray, hp], ?_⟩
  rw [Table.reorder, List.getElem?_toArray]
  exact getElem?_numberIn hp (hperm.mem_iff.mp (List.mem_of_getElem? hp))

theorem compile_reorder (h : compile name ps = .ok t) (hperm : ps.Perm qs) :
    compile name qs = .ok (t.reorder ps qs) := by
  obtain ⟨tree, hc⟩ := compile_eq_ok.mp h
  exact compile_eq_ok.mpr ⟨_, hc.reorder hperm⟩

/-- The order of the pairs has no say in whether there is a table, nor in what its bytes are. -/
theorem compile_perm (hperm : ps.Perm qs) :
    ((∃ t, compile name ps = .ok t) ↔ ∃ u, compile name qs = .ok u) ∧
    ∀ t u, compile name ps = .ok t → compile name qs = .ok u → Reordered t u := by
  constructor
  · constructor
    · rintro ⟨t, h⟩
      exact ⟨_, compile_reorder h hperm⟩
    · rintro ⟨u, h⟩
      exact ⟨_, compile_reorder h hperm.symm⟩
  · intro t u ht hu
    rw [compile_reorder ht hperm] at hu
    cases hu
    obtain ⟨tree, hc⟩ := compile_eq_ok.mp ht
    exact hc.reordered hperm

theorem compile_perm_hte : ∃ t u,
    [⟨"hte", "the"⟩, ⟨"nad", "and"⟩].Perm [⟨"nad", "and"⟩, (⟨"hte", "the"⟩ : Pair)] ∧
    compile "english" [⟨"hte", "the"⟩, ⟨"nad", "and"⟩] = .ok t ∧
    compile "english" [⟨"nad", "and"⟩, ⟨"hte", "the"⟩] = .ok u ∧ Reordered t u := by
  have hperm : [⟨"hte", "the"⟩, ⟨"nad", "and"⟩].Perm
      [⟨"nad", "and"⟩, (⟨"hte", "the"⟩ : Pair)] := .swap _ _ _
  obtain ⟨t, ht⟩ := exists_compile_hte
  obtain ⟨u, hu⟩ := (compile_perm hperm).1.mp ⟨t, ht⟩
  exact ⟨t, u, hperm, ht, hu, (compile_perm hperm).2 t u ht hu⟩

end Table
end Emend
