import Emend.Proofs.Table.Reorder

/-! Tables of fewer pairs. They are smaller, and their links are not wider. -/
namespace Emend

namespace RadixTree
variable {t u : RadixTree} {w : LinkWidth} {f g : Nat → Nat}

theorem byteLength_renumber : (t.renumber g).byteLength w f = t.byteLength w fun k => f (g k) := by
  induction t with
  | leaf k => rw [renumber, byteLength_leaf, byteLength_leaf]
  | chain codes next ih => rw [renumber, byteLength, byteLength, ih]
  | branch children ih =>
    have hmap : (children.map fun e => 1 + w.bytes + (e.2.renumber g).byteLength w f) =
        children.map fun e => 1 + w.bytes + e.2.byteLength w fun k => f (g k) :=
      List.map_congr_left fun e he => by rw [ih e he]
    rw [renumber, byteLength_branch, byteLength_branch, List.map_map]
    exact congrArg (·.sum + 1) hmap

/-- Wider links never take less room. -/
theorem byteLength_two_le_three : t.byteLength .two f ≤ t.byteLength .three f := by
  induction t with
  | leaf k => simp only [byteLength_leaf, Nat.le_refl]
  | chain codes next ih =>
    rw [byteLength, byteLength]
    omega
  | branch children ih =>
    rw [byteLength_branch, byteLength_branch]
    refine Nat.succ_le_succ (sum_le_sum fun e he => ?_)
    have := ih e he
    simp only [LinkWidth.bytes]
    omega

end RadixTree

namespace Table
variable {name : String} {ps qs : List Pair} {t u : Table} {tree sub : RadixTree} {k : Nat}
  {p : Pair} {w : LinkWidth}

theorem storable_sublist (hsub : qs.Sublist ps) (h : Storable ps) : Storable qs :=
  ⟨fun p hp => h.1 p (hsub.mem hp), h.2.sublist hsub⟩

theorem nodup_of_storable (h : Storable ps) : ps.Nodup := by
  refine List.Pairwise.imp ?_ h.2
  rintro p _ hapart rfl
  exact hapart.1 (List.suffix_refl _)

/-- Whoever spells the codes of a pair's typo spells them for that pair. -/
theorem eq_of_codesOf (h : Storable ps) {q : Pair} {v : List UInt8} (hp : p ∈ ps) (hq : q ∈ ps)
    (hpv : Trie.codesOf p.typo = .ok v) (hqv : Trie.codesOf q.typo = .ok v) : p = q := by
  obtain ⟨i, hi⟩ := List.getElem?_of_mem hp
  obtain ⟨j, hj⟩ := List.getElem?_of_mem hq
  have hpq := (Trie.prefix_iff_of_codesOf hpv hqv).mp (List.prefix_refl v)
  have hqp := (Trie.prefix_iff_of_codesOf hqv hpv).mp (List.prefix_refl v)
  have hij := index_eq_of_pairwise h.2 hi hj (fun ha => ha.1 hpq) fun ha => ha.1 hqp
  rw [hij, hj] at hi
  exact (Option.some.inj hi).symm

/-- The tree of some of the pairs takes fewer bytes than the tree of all of them. -/
theorem byteLength_lt_of_sublist (hps : Storable ps) (ht : tree.Canonical)
    (hspelled : tree.SpelledBy ps) (hsublist : qs.Sublist ps) (hne : qs ≠ ps)
    (hu : sub.Canonical) (hsub : sub.SpelledBy qs) :
    sub.byteLength w (leafLength qs.toArray) < tree.byteLength w (leafLength ps.toArray) := by
  have hmem : ∀ p ∈ qs, p ∈ ps := fun p hp => hsublist.mem hp
  have hlength : sub.byteLength w (leafLength qs.toArray) =
      (sub.renumber (numberIn qs ps)).byteLength w (leafLength ps.toArray) := by
    rw [RadixTree.byteLength_renumber]
    refine RadixTree.byteLength_congr fun v k hv => ?_
    obtain ⟨p, hp, -⟩ := (hsub v k).mp hv
    rw [leafLength, leafLength, editOf_numberIn hp (hmem p (List.mem_of_getElem? hp))]
  have hwords : ∀ v k, RadixTree.Spells (sub.renumber (numberIn qs ps)) v k →
      RadixTree.Spells tree v k := by
    intro v k hv
    obtain ⟨p, -, hp, hcodes⟩ := (spells_numberIn hsub hps hmem).mp hv
    exact (hspelled v k).mpr ⟨p, hp, hcodes⟩
  rw [hlength]
  refine (ht.eq_or_byteLength_lt (hu.renumber _) hwords).resolve_left fun heq => hne ?_
  -- If the trees were the same, every pair would be among the chosen ones.
  have hall : ∀ p ∈ ps, p ∈ qs := by
    intro p hp
    obtain ⟨k, hk⟩ := List.getElem?_of_mem hp
    obtain ⟨v, hv⟩ := Trie.codesOf_of_typeable (hps.1 p hp)
    have hs := (hspelled v k).mpr ⟨p, hk, hv⟩
    rw [← heq] at hs
    obtain ⟨q, hq, -, hqv⟩ := (spells_numberIn hsub hps hmem).mp hs
    rwa [eq_of_codesOf hps hp (hmem q hq) hv hqv]
  have hnodup := nodup_of_storable hps
  have hperm : qs.Perm ps := (List.perm_ext_iff_of_nodup (hnodup.sublist hsublist) hnodup).mpr
    fun p => ⟨hmem p, hall p⟩
  exact hsublist.eq_of_length hperm.length_eq

/-- Narrow links are taken whenever they reach. -/
theorem Compiled.width_eq_two (h : Compiled name ps t tree) : t.layout.width = .two ↔
    tree.byteLength .two (leafLength ps.toArray) ≤ LinkWidth.two.reach := by
  rw [← RadixTree.totalLength_flatten .two h.flatten]
  rcases Layout.narrowest_eq_ok.mp h.layout with ⟨hfits, hl⟩ | ⟨hno, -, hl⟩
  · rw [hl]
    exact ⟨fun _ => hfits, fun _ => rfl⟩
  · rw [hl]
    exact ⟨fun heq => (by cases heq), fun hfits => (hno hfits).elim⟩

/-- A dictionary that was reduced has a smaller table. -/
theorem compile_sublist (ht : compile name ps = .ok t) (hsublist : qs.Sublist ps)
    (hempty : qs ≠ []) (hne : qs ≠ ps) : ∃ u, compile name qs = .ok u ∧ u.size < t.size ∧
      u.layout.width.bytes ≤ t.layout.width.bytes := by
  obtain ⟨tree, hc⟩ := compile_eq_ok.mp ht
  have hless : ∀ (w : LinkWidth) (sub : RadixTree), sub.Canonical → sub.SpelledBy qs →
      sub.byteLength w (leafLength qs.toArray) < tree.byteLength w (leafLength ps.toArray) :=
    fun w sub hu hsub =>
      byteLength_lt_of_sublist hc.storable hc.canonical hc.spelled hsublist hne hu hsub
  have hlayout := hc.layout_eq.2
  rw [Layout.Fits, RadixTree.totalLength_flatten _ hc.flatten] at hlayout
  obtain ⟨u, hu⟩ : ∃ u, compile name qs = .ok u :=
    exists_compile hempty (storable_sublist hsublist hc.storable)
      (fun p hp => hc.edits p (hsublist.mem hp)) fun sub hcanonical hspelled =>
        ⟨t.layout.width, Nat.le_trans (Nat.le_of_lt (hless _ sub hcanonical hspelled)) hlayout⟩
  obtain ⟨sub, hcu⟩ := compile_eq_ok.mp hu
  have hlt := fun w => hless w sub hcu.canonical hcu.spelled
  have hwide := RadixTree.byteLength_two_le_three (t := sub) (f := leafLength qs.toArray)
  have hlt2 := hlt .two
  have hlt3 := hlt .three
  refine ⟨u, hu, ?_⟩
  rw [hc.size, hcu.size]
  cases hw : t.layout.width with
  | two =>
    have hreach := hc.width_eq_two.mp hw
    rw [hcu.width_eq_two.mpr (by omega)]
    exact ⟨hlt2, Nat.le_refl _⟩
  | three =>
    cases u.layout.width with
    | two => exact ⟨by omega, by decide⟩
    | three => exact ⟨hlt3, Nat.le_refl _⟩

theorem compile_sublist_hte : ∃ t u,
    compile "english" [⟨"hte", "the"⟩, ⟨"nad", "and"⟩] = .ok t ∧
    [⟨"hte", "the"⟩].Sublist [⟨"hte", "the"⟩, (⟨"nad", "and"⟩ : Pair)] ∧
    [⟨"hte", "the"⟩] ≠ ([] : List Pair) ∧
    [⟨"hte", "the"⟩] ≠ [⟨"hte", "the"⟩, (⟨"nad", "and"⟩ : Pair)] ∧
    compile "english" [⟨"hte", "the"⟩] = .ok u ∧ u.size < t.size ∧
    u.layout.width.bytes ≤ t.layout.width.bytes := by
  obtain ⟨t, ht⟩ := exists_compile_hte
  have hsublist : [⟨"hte", "the"⟩].Sublist [⟨"hte", "the"⟩, (⟨"nad", "and"⟩ : Pair)] :=
    .cons_cons _ (List.nil_sublist _)
  have hempty : [⟨"hte", "the"⟩] ≠ ([] : List Pair) := by simp
  have hne : [⟨"hte", "the"⟩] ≠ [⟨"hte", "the"⟩, (⟨"nad", "and"⟩ : Pair)] := by simp
  obtain ⟨u, hu, hless⟩ := compile_sublist ht hsublist hempty hne
  exact ⟨t, u, ht, hsublist, hempty, hne, hu, hless⟩

end Table
end Emend
