import Mathlib.Logic.Relation
import Emend.Proofs.Entry.Blocks
import Emend.Proofs.RadixTree.Stops
import Emend.Proofs.Table.Compile

/-! The entries of a trie make a tree, written down in preorder: each but the first is linked to
once, from further up, and what lies below an entry stands right behind it. -/
namespace Emend

namespace Entry

/-- How many children a branch has besides the first. -/
def choices : Entry → Nat
  | leaf _ _ => 0
  | chain _ _ => 0
  | branch links => links.length - 1

/-- Entry `i` has a link to entry `j`. -/
def Linked (table : List Entry) (i j : Nat) : Prop := ∃ e, table[i]? = some e ∧ j ∈ e.links

/-- Entry `j` is reached from entry `i` over one link or more. -/
def Below (table : List Entry) : Nat → Nat → Prop := Relation.TransGen (Linked table)

variable {table : List Entry} {e : Entry} {i j : Nat}

theorem linked_iff (h : table[i]? = some e) : Linked table i j ↔ j ∈ e.links := by
  constructor
  · rintro ⟨f, hf, hj⟩
    rw [h] at hf
    cases hf
    exact hj
  · exact fun hj => ⟨e, h, hj⟩

theorem reaches_iff (h : table[i]? = some e) : Relation.ReflTransGen (Linked table) i j ↔
    j = i ∨ ∃ l ∈ e.links, Relation.ReflTransGen (Linked table) l j := by
  rw [Relation.ReflTransGen.cases_head_iff, eq_comm]
  simp only [linked_iff h]

/-- If links lead forward, so do paths. -/
theorem lt_of_below (hforward : ∀ i j, Linked table i j → i < j) (h : Below table i j) : i < j := by
  induction h with
  | single h => exact hforward _ _ h
  | tail _ h ih => exact Nat.lt_trans ih (hforward _ _ h)

theorem leaves_ofEntries (es : List Entry) :
    (EntryTally.ofEntries es).leaves = (es.filterMap pair?).length := by
  have hfold : ∀ n : EntryTally, (es.foldl EntryTally.add n).leaves =
      n.leaves + (es.filterMap pair?).length := by
    induction es with
    | nil => exact fun _ => rfl
    | cons e es ih =>
      intro n
      rw [List.foldl_cons, ih]
      cases e with
      | leaf k edit =>
        simp only [EntryTally.add, List.filterMap_cons, pair?, List.length_cons]
        omega
      | chain codes next => rfl
      | branch links => rfl
  rw [EntryTally.ofEntries, hfold, Nat.zero_add]

end Entry

namespace RadixTree
open Entry (Linked Below)

variable {pairs : Array Pair} {t u : RadixTree} {id i j k : Nat} {es table : List Entry}
  {codes : List UInt8} {next : Nat}

/-- As many entries as there are stops. -/
theorem length_flatten (h : t.flatten pairs id = .ok es) : es.length = t.stops.length := by
  refine flatten_induct (P := fun _ t es => es.length = t.stops.length)
    (Q := fun _ children _ es =>
      es.length = (children.flatMap fun e => e.2.stops.map (e.1 :: ·)).length) ?_ ?_ ?_ ?_ ?_ h
  · intro id k edit _
    rw [stops]
    rfl
  · intro id codes t es ih
    rw [stops, List.length_cons, List.length_cons, List.length_map, ih]
  · intro id children links es ih
    rw [stops, List.length_cons, List.length_cons, ih]
  · intro id
    rfl
  · intro id c t es children links below iht ih
    rw [List.length_append, List.flatMap_cons, List.length_append, List.length_map, iht, ih]

/-- The number of the first entry and the links together are all numbers, each of them once. -/
theorem perm_links (h : t.flatten pairs id = .ok es) :
    (id :: es.flatMap Entry.links).Perm (List.range' id es.length) := by
  refine flatten_induct
    (P := fun id _ es => (id :: es.flatMap Entry.links).Perm (List.range' id es.length))
    (Q := fun id _ links es =>
      (links.map (·.2) ++ es.flatMap Entry.links).Perm (List.range' id es.length))
    ?_ ?_ ?_ ?_ ?_ h
  · intro id k edit _
    exact List.Perm.refl _
  · intro id codes t es ih
    exact ih.cons id
  · intro id children links es ih
    exact ih.cons id
  · intro id
    exact List.Perm.refl _
  · intro id c t es children links below iht ih
    -- The link to the first tree goes with the links inside that tree.
    rw [List.length_append, ← List.range'_append_1, List.flatMap_append, List.map_cons,
      List.cons_append]
    refine List.Perm.trans (List.Perm.cons id ?_) (iht.append ih)
    exact List.perm_append_comm_assoc _ _ _

theorem count_links (h : t.flatten pairs 0 = .ok es) (i : Nat) :
    (es.flatMap Entry.links).count i = if 0 < i ∧ i < es.length then 1 else 0 := by
  have hperm := (perm_links h).count_eq i
  have hpos := (links_flatten h).1
  rw [List.count_cons, List.Nodup.count List.nodup_range'] at hperm
  simp only [List.mem_range'_1, beq_iff_eq] at hperm
  split at hperm <;> split at hperm <;> split <;> omega

/-- From the first entry one gets to all of them, and no further. -/
theorem reaches_flatten (h : t.flatten pairs id = .ok es) (hpre : es <+: table.drop id) :
    Relation.ReflTransGen (Linked table) id j ↔ id ≤ j ∧ j < id + es.length := by
  refine flatten_induct
    (P := fun id _ es => es <+: table.drop id →
      (Relation.ReflTransGen (Linked table) id j ↔ id ≤ j ∧ j < id + es.length))
    (Q := fun id _ links es => es <+: table.drop id →
      ((∃ l ∈ links, Relation.ReflTransGen (Linked table) l.2 j) ↔ id ≤ j ∧ j < id + es.length))
    ?_ ?_ ?_ ?_ ?_ h hpre
  · intro id k edit _ hpre
    rw [Entry.reaches_iff (getElem?_of_prefix_drop hpre).1]
    simp only [Entry.links, List.not_mem_nil, false_and, exists_false, or_false,
      List.length_singleton]
    omega
  · intro id codes t es ih hpre
    obtain ⟨hid, hbelow⟩ := getElem?_of_prefix_drop hpre
    rw [Entry.reaches_iff hid]
    simp only [Entry.links, List.mem_singleton, exists_eq_left, ih hbelow, List.length_cons]
    omega
  · intro id children links es ih hpre
    obtain ⟨hid, hbelow⟩ := getElem?_of_prefix_drop hpre
    rw [Entry.reaches_iff hid]
    simp only [Entry.links, List.mem_map, exists_exists_and_eq_and, ih hbelow, List.length_cons]
    omega
  · intro id _
    simp
  · intro id c t es children links below iht ih hpre
    obtain ⟨hfirst, hbelow⟩ := prefix_drop_of_append hpre
    simp only [List.exists_mem_cons_iff, iht hfirst, ih hbelow, List.length_append]
    omega

/-- What lies below an entry stands right behind it, without a gap. -/
theorem below_flatten (h : t.flatten pairs 0 = .ok es) (hi : i < es.length) :
    ∃ n, i + n < es.length ∧ ∀ j, Below es i j ↔ i < j ∧ j ≤ i + n := by
  obtain ⟨u, below, hu, hpre, -⟩ := beginBlocks h i _ (List.getElem?_eq_getElem hi)
  rw [Nat.zero_add] at hu
  have hlength := hpre.length_le
  rw [List.length_drop, List.length_cons] at hlength
  have hforward : ∀ i j, Linked es i j → i < j := by
    rintro i j ⟨e, he, hj⟩
    have := (link_forward h he hj).1
    omega
  -- Entry `i` reaches the entries of its own tree, but not itself: links lead forward.
  refine ⟨below.length, by omega, fun j => ?_⟩
  have hreaches := reaches_flatten (j := j) hu hpre
  rw [Relation.reflTransGen_iff_eq_or_transGen, List.length_cons] at hreaches
  constructor
  · intro hj
    have := hreaches.mp (Or.inr hj)
    have := Entry.lt_of_below hforward hj
    omega
  · intro hj
    rcases hreaches.mpr (by omega) with heq | hbelow
    · omega
    · exact hbelow

/-- Every branch puts one more leaf into the tree than it takes from it, for each further child. -/
theorem choices_flatten (ht : Canonical t) (h : t.flatten pairs id = .ok es) :
    (es.map Entry.choices).sum + 1 = (es.filterMap Entry.pair?).length := by
  refine flatten_induct
    (P := fun _ t es => Canonical t →
      (es.map Entry.choices).sum + 1 = (es.filterMap Entry.pair?).length)
    (Q := fun _ children links es => links.length = children.length ∧
      ((∀ child ∈ children, Canonical child.2) →
        (es.map Entry.choices).sum + links.length = (es.filterMap Entry.pair?).length))
    ?_ ?_ ?_ ?_ ?_ h ht
  · intro id k edit _ _
    rfl
  · intro id codes t es ih hc
    rw [List.map_cons, List.sum_cons, Entry.choices, Nat.zero_add, ih hc.of_chain.2.2.1]
    rfl
  · intro id children links es ih hc
    obtain ⟨hlength, hsum⟩ := ih
    obtain ⟨htwo, -, -, hchildren⟩ := hc.of_branch
    have hsum := hsum hchildren
    rw [List.map_cons, List.sum_cons, Entry.choices]
    simp only [List.filterMap_cons, Entry.pair?]
    omega
  · intro id
    exact ⟨rfl, fun _ => rfl⟩
  · intro id c t es children links below iht ih
    obtain ⟨hlength, hsum⟩ := ih
    refine ⟨by rw [List.length_cons, List.length_cons, hlength], fun hc => ?_⟩
    obtain ⟨ht, hchildren⟩ := List.forall_mem_cons.mp hc
    have hfirst := iht ht
    have hrest := hsum hchildren
    rw [List.map_append, List.sum_append_nat, List.filterMap_append, List.length_append,
      List.length_cons]
    omega

theorem head_of_flatten (h : u.flatten pairs id = .ok es) (hu : ∀ ds v, u ≠ chain ds v) :
    ∃ e below, es = e :: below ∧ ∀ ds l, e ≠ .chain ds l := by
  cases u with
  | leaf k =>
    obtain ⟨edit, -, rfl⟩ := flatten_leaf.mp h
    exact ⟨_, _, rfl, fun ds l hl => by cases hl⟩
  | chain ds v => exact (hu ds v rfl).elim
  | branch children =>
    obtain ⟨links, below, -, rfl⟩ := flatten_branch.mp h
    exact ⟨_, _, rfl, fun ds l hl => by cases hl⟩

/-- A chain is not continued by another one. -/
theorem next_of_canonical (ht : Canonical t) (h : t.flatten pairs id = .ok es)
    (he : es[i]? = some (.chain codes next)) :
    ∃ e, es[i + 1]? = some e ∧ ∀ ds l, e ≠ .chain ds l := by
  obtain ⟨u, below, hu, hpre, hcanonical⟩ := beginBlocks h i _ he
  obtain ⟨-, v, rfl⟩ := eq_chain_of_flatten hu
  obtain ⟨below', hv, heq⟩ := flatten_chain.mp hu
  cases heq
  obtain ⟨e, rest, rfl, hne⟩ := head_of_flatten hv (hcanonical ht).of_chain.2.2.2
  exact ⟨e, (getElem?_of_prefix_drop (getElem?_of_prefix_drop hpre).2).1, hne⟩

end RadixTree

open Entry (Linked Below)

/-- The entries make one tree, written down in preorder, in which each pair has a leaf with its
edit. Chains are as long as they can be, and every branch has a choice to offer. -/
structure Preordered (ps : List Pair) (es : List Entry) : Prop where
  leaf : ∀ {k : Nat} {p : Pair}, ps[k]? = some p → ∃ i edit, Edit.ofPair p = .ok edit ∧
    ∀ (j : Nat) e, es[j]? = some (.leaf k e) ↔ j = i ∧ e = edit
  pair : ∀ {i k : Nat} {e : Edit}, es[i]? = some (.leaf k e) → ∃ p, ps[k]? = some p
  linked : ∀ i, (es.flatMap Entry.links).count i = if 0 < i ∧ i < es.length then 1 else 0
  forward : ∀ {i j : Nat}, Linked es i j → i < j ∧ j < es.length
  chain : ∀ {i next : Nat} {codes : List UInt8}, es[i]? = some (.chain codes next) →
    codes ≠ [] ∧ next = i + 1 ∧ ∃ e, es[i + 1]? = some e ∧ ∀ ds l, e ≠ .chain ds l
  branch : ∀ {i : Nat} {links : List (UInt8 × Nat)}, es[i]? = some (.branch links) →
    2 ≤ links.length ∧ (links.map (·.1)).Pairwise (· < ·)
  below : ∀ {i : Nat}, i < es.length →
    ∃ n, i + n < es.length ∧ ∀ j, Below es i j ↔ i < j ∧ j ≤ i + n
  choices : (es.map Entry.choices).sum + 1 = (EntryTally.ofEntries es).leaves

namespace RadixTree
variable {ps : List Pair} {t : RadixTree} {es : List Entry} {k : Nat} {p : Pair}

/-- Each pair has one leaf, and it is there with its edit. -/
theorem exists_leaf (hps : Storable ps) (ht : Canonical t) (hspelled : t.SpelledBy ps)
    (h : t.flatten ps.toArray 0 = .ok es) (hp : ps[k]? = some p) :
    ∃ i edit, Edit.ofPair p = .ok edit ∧
      ∀ (j : Nat) e, es[j]? = some (.leaf k e) ↔ j = i ∧ e = edit := by
  have hedit : ∀ (j : Nat) e, es[j]? = some (.leaf k e) → Edit.ofPair p = .ok e := by
    intro j e hj
    rw [← Table.editOf_eq hp]
    exact edit_of_leaf h hj
  have hk : k ∈ es.filterMap Entry.pair? := by
    rw [filterMap_pair?_flatten h]
    exact (Table.mem_leaves_of_spelledBy hps hspelled).mpr ⟨p, hp⟩
  obtain ⟨e, he, hpair⟩ := List.mem_filterMap.mp hk
  cases e with
  | leaf l edit =>
    cases hpair
    obtain ⟨i, hi⟩ := List.getElem?_of_mem he
    have hok := hedit i edit hi
    refine ⟨i, edit, hok, fun j e => ⟨fun hj => ?_, ?_⟩⟩
    · have hnodup := Table.nodup_leaves_of_spelledBy ht hspelled
      have hok' := hedit j e hj
      rw [hok] at hok'
      cases hok'
      exact ⟨leaf_unique h hnodup hj hi, rfl⟩
    · rintro ⟨rfl, rfl⟩
      exact hi
  | chain codes next => cases hpair
  | branch links => cases hpair

theorem preordered (hps : Storable ps) (ht : Canonical t) (hspelled : t.SpelledBy ps)
    (h : t.flatten ps.toArray 0 = .ok es) : Preordered ps es where
  leaf := exists_leaf hps ht hspelled h
  pair := by
    intro i k edit hi
    rw [← Table.mem_leaves_of_spelledBy hps hspelled, ← filterMap_pair?_flatten h]
    exact List.mem_filterMap.mpr ⟨_, List.mem_of_getElem? hi, rfl⟩
  linked := count_links h
  forward := by
    rintro i j ⟨e, he, hj⟩
    have hlink := link_forward h he hj
    omega
  chain := by
    intro i codes next he
    obtain ⟨hne, -, hnext⟩ := chain_of_canonical ht h he
    rw [Nat.zero_add] at hnext
    exact ⟨hne, hnext, next_of_canonical ht h he⟩
  branch := by
    intro i links he
    obtain ⟨hlength, -, hcodes⟩ := branch_of_canonical ht h he
    exact ⟨hlength, hcodes⟩
  below := below_flatten h
  choices := by
    rw [Entry.leaves_ofEntries]
    exact choices_flatten ht h

end RadixTree

/-- The entries of a trie are well formed, and there are no more of them than there are nodes. -/
theorem Trie.entries_preordered {ps : List Pair} {t : Trie} {es : List Entry} (hne : ps ≠ [])
    (ht : ofPairs ps = .ok t) (hes : t.entries = .ok es) :
    Preordered ps es ∧ es.length ≤ t.size := by
  have hspec := ofPairs_spec ps
  rw [ht] at hspec
  obtain ⟨hps, hs, hpairs⟩ := hspec
  obtain ⟨-, hcanonical, hspelled, -⟩ := Table.ofPairs_eq_ok hne ht
  have hsome : t.pairs ≠ #[] := by
    rw [hpairs]
    simpa using hne
  rw [entries, hpairs] at hes
  refine ⟨RadixTree.preordered hps hcanonical hspelled hes, ?_⟩
  rw [RadixTree.length_flatten hes]
  exact RadixTree.length_stops_le hs hsome

theorem Trie.entries_preordered_hte : ∃ t es, ofPairs [⟨"hte", "the"⟩, ⟨"teh", "the"⟩] = .ok t ∧
    t.entries = .ok es ∧ Preordered [⟨"hte", "the"⟩, ⟨"teh", "the"⟩] es ∧ es.length ≤ t.size := by
  obtain ⟨es, h⟩ : ∃ es, (ofPairs [⟨"hte", "the"⟩, ⟨"teh", "the"⟩] >>= entries) = .ok es :=
    exists_of_isOk (by decide +kernel)
  obtain ⟨t, ht, hes⟩ := bind_eq_ok.mp h
  exact ⟨t, es, ht, hes, entries_preordered (by simp) ht hes⟩

end Emend
