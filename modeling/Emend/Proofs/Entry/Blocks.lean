import Emend.Proofs.Entry.Flatten

/-! The entries of a part of a tree stand together, behind the entry that begins them. What is true
of the tree there is true of its first entry. -/
namespace Emend.RadixTree
open Alphabet (IsCode)

variable {pairs : Array Pair} {t u : RadixTree} {children : List (UInt8 × RadixTree)}
  {codes : List UInt8} {id i j k next : Nat} {e : Entry} {es below : List Entry}
  {links : List (UInt8 × Nat)} {edit : Edit}

/-- Each entry, the first being numbered `id`, begins the entries of a tree, which is canonical if
`C` holds. -/
def BeginBlocks (pairs : Array Pair) (C : Prop) (id : Nat) (es : List Entry) : Prop :=
  ∀ i e, es[i]? = some e → ∃ u below, u.flatten pairs (id + i) = .ok (e :: below) ∧
    e :: below <+: es.drop i ∧ (C → Canonical u)

namespace BeginBlocks
variable {C D : Prop} {fs : List Entry}

theorem nil : BeginBlocks pairs C id [] := by
  intro i e he
  cases he

theorem cons (h : BeginBlocks pairs D (id + 1) es) (hu : u.flatten pairs id = .ok (e :: es))
    (hc : C → Canonical u) (hd : C → D) : BeginBlocks pairs C id (e :: es) := by
  intro i f hf
  cases i with
  | zero =>
    cases hf
    exact ⟨u, es, hu, List.prefix_refl _, hc⟩
  | succ i =>
    obtain ⟨v, below, hv, hpre, hcanonical⟩ := h i f hf
    rw [Nat.add_assoc, Nat.add_comm 1 i] at hv
    exact ⟨v, below, hv, hpre, fun h => hcanonical (hd h)⟩

theorem append (h : BeginBlocks pairs C id es) (h' : BeginBlocks pairs C (id + es.length) fs) :
    BeginBlocks pairs C id (es ++ fs) := by
  intro i e he
  by_cases hi : i < es.length
  · rw [List.getElem?_append_left hi] at he
    obtain ⟨u, below, hu, hpre, hc⟩ := h i e he
    rw [List.drop_append_of_le_length (Nat.le_of_lt hi)]
    exact ⟨u, below, hu, hpre.trans (List.prefix_append _ _), hc⟩
  · have hle := Nat.le_of_not_lt hi
    rw [List.getElem?_append_right hle] at he
    obtain ⟨u, below, hu, hpre, hc⟩ := h' (i - es.length) e he
    rw [Nat.add_assoc, Nat.add_sub_cancel' hle] at hu
    rw [List.drop_append, List.drop_eq_nil_of_le hle, List.nil_append]
    exact ⟨u, below, hu, hpre, hc⟩

theorem mono (h : BeginBlocks pairs D id es) (hd : C → D) : BeginBlocks pairs C id es := by
  intro i e he
  obtain ⟨u, below, hu, hpre, hc⟩ := h i e he
  exact ⟨u, below, hu, hpre, fun h => hc (hd h)⟩

end BeginBlocks

theorem beginBlocks (h : t.flatten pairs id = .ok es) :
    BeginBlocks pairs (Canonical t) id es := by
  refine (flatten_induct
    (P := fun id t es => t.flatten pairs id = .ok es ∧ BeginBlocks pairs (Canonical t) id es)
    (Q := fun id children links es => flattenAll pairs id children = .ok (links, es) ∧
      BeginBlocks pairs (∀ child ∈ children, Canonical child.2) id es) ?_ ?_ ?_ ?_ ?_ h).2
  · intro id k edit hedit
    have hleaf : (leaf k).flatten pairs id = .ok [.leaf k edit] :=
      flatten_leaf.mpr ⟨edit, hedit, rfl⟩
    exact ⟨hleaf, BeginBlocks.nil.cons hleaf (fun hc => hc) fun hc => hc⟩
  · intro id codes t es ih
    obtain ⟨hbelow, hblocks⟩ := ih
    have hchain : (chain codes t).flatten pairs id = .ok (.chain codes (id + 1) :: es) :=
      flatten_chain.mpr ⟨es, hbelow, rfl⟩
    exact ⟨hchain, hblocks.cons hchain (fun hc => hc) fun hc => hc.of_chain.2.2.1⟩
  · intro id children links es ih
    obtain ⟨hbelow, hblocks⟩ := ih
    have hbranch : (branch children).flatten pairs id = .ok (.branch links :: es) :=
      flatten_branch.mpr ⟨links, es, hbelow, rfl⟩
    exact ⟨hbranch, hblocks.cons hbranch (fun hc => hc) fun hc => hc.of_branch.2.2.2⟩
  · intro id
    exact ⟨flattenAll_nil.mpr ⟨rfl, rfl⟩, BeginBlocks.nil⟩
  · intro id c t es children links below iht ih
    obtain ⟨hfirst, ht⟩ := iht
    obtain ⟨hrest, hchildren⟩ := ih
    refine ⟨flattenAll_cons.mpr ⟨es, hfirst, links, below, hrest, rfl, rfl⟩, ?_⟩
    exact (ht.mono fun hc => hc (c, t) List.mem_cons_self).append
      (hchildren.mono fun hc child hm => hc child (List.mem_cons_of_mem _ hm))

/-- Each link leads behind its own entry. -/
theorem link_forward (h : t.flatten pairs id = .ok es) (he : es[i]? = some e) {l : Nat}
    (hl : l ∈ e.links) : id + i < l ∧ l < id + es.length := by
  obtain ⟨u, below, hu, hpre, -⟩ := beginBlocks h i _ he
  have hlink := (links_flatten hu).2 e List.mem_cons_self l hl
  have hlen := hpre.length_le
  rw [List.length_drop] at hlen
  omega

/-! One entry. -/

theorem codes_of_flattenAll (h : flattenAll pairs id children = .ok (links, es)) :
    links.map (·.1) = children.map (·.1) := by
  induction children generalizing id links es with
  | nil =>
    obtain ⟨rfl, -⟩ := flattenAll_nil.mp h
    rfl
  | cons child children ih =>
    obtain ⟨c, t⟩ := child
    obtain ⟨first, -, later, below, hrest, rfl, -⟩ := flattenAll_cons.mp h
    rw [List.map_cons, List.map_cons, ih hrest]

theorem eq_leaf_of_flatten (h : u.flatten pairs id = .ok (.leaf k edit :: below)) :
    u = leaf k ∧ editOf pairs k = .ok edit := by
  cases u with
  | leaf l =>
    obtain ⟨edit', hedit, heq⟩ := flatten_leaf.mp h
    cases heq
    exact ⟨rfl, hedit⟩
  | chain ds v =>
    obtain ⟨es, -, heq⟩ := flatten_chain.mp h
    cases heq
  | branch children =>
    obtain ⟨links, es, -, heq⟩ := flatten_branch.mp h
    cases heq

theorem eq_chain_of_flatten (h : u.flatten pairs id = .ok (.chain codes next :: below)) :
    next = id + 1 ∧ ∃ v, u = chain codes v := by
  cases u with
  | leaf k =>
    obtain ⟨edit, -, heq⟩ := flatten_leaf.mp h
    cases heq
  | chain ds v =>
    obtain ⟨es, -, heq⟩ := flatten_chain.mp h
    cases heq
    exact ⟨rfl, v, rfl⟩
  | branch children =>
    obtain ⟨links, es, -, heq⟩ := flatten_branch.mp h
    cases heq

theorem eq_branch_of_flatten (h : u.flatten pairs id = .ok (.branch links :: below)) :
    ∃ children, u = branch children ∧ links.map (·.1) = children.map (·.1) := by
  cases u with
  | leaf k =>
    obtain ⟨edit, -, heq⟩ := flatten_leaf.mp h
    cases heq
  | chain ds v =>
    obtain ⟨es, -, heq⟩ := flatten_chain.mp h
    cases heq
  | branch children =>
    obtain ⟨links', es, hall, heq⟩ := flatten_branch.mp h
    cases heq
    exact ⟨children, rfl, codes_of_flattenAll hall⟩

/-- A leaf holds the edit of its pair. -/
theorem edit_of_leaf (h : t.flatten pairs id = .ok es) (he : es[i]? = some (.leaf k edit)) :
    editOf pairs k = .ok edit := by
  obtain ⟨u, below, hu, -, -⟩ := beginBlocks h i _ he
  exact (eq_leaf_of_flatten hu).2

/-- A chain has codes, and what it leads to stands right behind it. -/
theorem chain_of_canonical (ht : Canonical t) (h : t.flatten pairs id = .ok es)
    (he : es[i]? = some (.chain codes next)) :
    codes ≠ [] ∧ (∀ c ∈ codes, IsCode c) ∧ next = id + i + 1 := by
  obtain ⟨u, below, hu, -, hcanonical⟩ := beginBlocks h i _ he
  obtain ⟨hnext, v, rfl⟩ := eq_chain_of_flatten hu
  obtain ⟨hne, hcode, -⟩ := (hcanonical ht).of_chain
  exact ⟨hne, hcode, hnext⟩

/-- A branch has a choice to offer, in the order of the codes. -/
theorem branch_of_canonical (ht : Canonical t) (h : t.flatten pairs id = .ok es)
    (he : es[i]? = some (.branch links)) :
    2 ≤ links.length ∧ (∀ l ∈ links, IsCode l.1) ∧ (links.map (·.1)).Pairwise (· < ·) := by
  obtain ⟨u, below, hu, -, hcanonical⟩ := beginBlocks h i _ he
  obtain ⟨children, rfl, hcodes⟩ := eq_branch_of_flatten hu
  obtain ⟨hlen, hasc, hcode, -⟩ := (hcanonical ht).of_branch
  have hlength : links.length = children.length := by simpa using congrArg List.length hcodes
  refine ⟨by omega, fun l hl => ?_, ?_⟩
  · have hm : l.1 ∈ children.map (·.1) := hcodes ▸ List.mem_map_of_mem hl
    obtain ⟨child, hchild, heq⟩ := List.mem_map.mp hm
    rw [← heq]
    exact hcode child hchild
  · rw [hcodes, List.pairwise_map]
    exact hasc

end Emend.RadixTree
