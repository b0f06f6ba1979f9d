import Emend.Entry
import Emend.Proofs.Except
import Emend.Proofs.RadixTree.Length

/-! What a tree is flattened to: which entries, how many bytes, and where the links lead. -/
namespace Emend

/-- The edit of pair `k`. -/
def editOf (pairs : Array Pair) (k : Nat) : Except CompileError Edit :=
  Edit.ofPair (pairs[k]?.getD ⟨"", ""⟩)

def editLength : Except CompileError Edit → Nat
  | .ok edit => edit.byteLength
  | .error _ => 0

/-- The bytes of the leaf of pair `k`. -/
def leafLength (pairs : Array Pair) (k : Nat) : Nat := editLength (editOf pairs k)

/-- The bytes of entries under a link width. -/
def totalLength (w : LinkWidth) (es : List Entry) : Nat := (es.map (Entry.byteLength w)).sum

theorem leafLength_eq {pairs : Array Pair} {k : Nat} {edit : Edit}
    (h : editOf pairs k = .ok edit) : leafLength pairs k = edit.byteLength := by
  rw [leafLength, h, editLength]

theorem totalLength_cons {w : LinkWidth} {e : Entry} {es : List Entry} :
    totalLength w (e :: es) = e.byteLength w + totalLength w es := by
  rw [totalLength, List.map_cons, List.sum_cons, totalLength]

theorem totalLength_append {w : LinkWidth} {es fs : List Entry} :
    totalLength w (es ++ fs) = totalLength w es + totalLength w fs := by
  rw [totalLength, List.map_append, List.sum_append_nat, totalLength, totalLength]

theorem Entry.byteLength_pos (w : LinkWidth) (e : Entry) : 0 < e.byteLength w := by
  cases e with
  | leaf k edit => exact Nat.succ_pos _
  | chain codes next => exact Nat.succ_pos _
  | branch links => exact Nat.succ_pos _

/-- The pair of a leaf. -/
def Entry.pair? : Entry → Option Nat
  | leaf k _ => some k
  | chain _ _ => none
  | branch _ => none

namespace RadixTree
variable {pairs : Array Pair} {t : RadixTree} {children : List (UInt8 × RadixTree)}
  {codes : List UInt8} {c : UInt8} {id k : Nat} {es : List Entry} {links : List (UInt8 × Nat)}

/-! One step. -/

theorem flatten_leaf : (leaf k).flatten pairs id = .ok es ↔
    ∃ edit, editOf pairs k = .ok edit ∧ es = [.leaf k edit] := by
  simp only [flatten, bind_eq_ok, pure_eq_ok, editOf]

theorem flatten_chain : (chain codes t).flatten pairs id = .ok es ↔
    ∃ below, t.flatten pairs (id + 1) = .ok below ∧ es = .chain codes (id + 1) :: below := by
  simp only [flatten, bind_eq_ok, pure_eq_ok]

theorem flatten_branch : (branch children).flatten pairs id = .ok es ↔
    ∃ links below, flattenAll pairs (id + 1) children = .ok (links, below) ∧
      es = .branch links :: below := by
  simp only [flatten, bind_eq_ok, pure_eq_ok, Prod.exists]

theorem flattenAll_nil : flattenAll pairs id [] = .ok (links, es) ↔ links = [] ∧ es = [] := by
  simp only [flattenAll, pure_eq_ok, Prod.mk.injEq]

theorem flattenAll_cons : flattenAll pairs id ((c, t) :: children) = .ok (links, es) ↔
    ∃ first, t.flatten pairs id = .ok first ∧
      ∃ later below, flattenAll pairs (id + first.length) children = .ok (later, below) ∧
        links = (c, id) :: later ∧ es = first ++ below := by
  simp only [flattenAll, bind_eq_ok, pure_eq_ok, Prod.exists, Prod.mk.injEq]

/-- Flattened trees, one step after the other; `Q` is about siblings. -/
theorem flatten_induct {P : Nat → RadixTree → List Entry → Prop}
    {Q : Nat → List (UInt8 × RadixTree) → List (UInt8 × Nat) → List Entry → Prop}
    (leaf : ∀ id k edit, editOf pairs k = .ok edit → P id (leaf k) [.leaf k edit])
    (chain : ∀ id codes t es, P (id + 1) t es →
      P id (chain codes t) (.chain codes (id + 1) :: es))
    (branch : ∀ id children links es, Q (id + 1) children links es →
      P id (branch children) (.branch links :: es))
    (nil : ∀ id, Q id [] [] [])
    (cons : ∀ id c t es children links below, P id t es →
      Q (id + es.length) children links below →
      Q id ((c, t) :: children) ((c, id) :: links) (es ++ below))
    (h : t.flatten pairs id = .ok es) : P id t es := by
  induction t generalizing id es with
  | leaf k =>
    obtain ⟨edit, hedit, rfl⟩ := flatten_leaf.mp h
    exact leaf id k edit hedit
  | chain codes t ih =>
    obtain ⟨below, hbelow, rfl⟩ := flatten_chain.mp h
    exact chain id codes t below (ih hbelow)
  | branch children ih =>
    obtain ⟨links, below, hbelow, rfl⟩ := flatten_branch.mp h
    refine branch id children links below ?_
    clear h
    generalize id + 1 = start at hbelow
    induction children generalizing start links below with
    | nil =>
      obtain ⟨rfl, rfl⟩ := flattenAll_nil.mp hbelow
      exact nil start
    | cons e children ihs =>
      obtain ⟨c, t⟩ := e
      obtain ⟨first, hfirst, later, rest, hrest, rfl, rfl⟩ := flattenAll_cons.mp hbelow
      refine cons start c t first children later rest (ih (c, t) (by simp) hfirst) ?_
      exact ihs (fun e he => ih e (by simp [he])) _ _ _ hrest

/-! The whole list. -/

theorem filterMap_pair?_flatten (h : t.flatten pairs id = .ok es) :
    es.filterMap Entry.pair? = t.leaves := by
  refine flatten_induct (P := fun _ t es => es.filterMap Entry.pair? = t.leaves)
    (Q := fun _ children _ es =>
      es.filterMap Entry.pair? = children.flatMap fun e => e.2.leaves) ?_ ?_ ?_ ?_ ?_ h
  · intro id k edit _
    rw [leaves]
    rfl
  · intro id codes t es ih
    rw [leaves, ← ih]
    rfl
  · intro id children links es ih
    rw [leaves, ← ih]
    rfl
  · intro id
    rfl
  · intro id c t es children links below iht ih
    rw [List.filterMap_append, iht, ih, List.flatMap_cons]

/-- If no pair has two leaves in the tree, none has two among the entries. -/
theorem leaf_unique (h : t.flatten pairs id = .ok es) (hnodup : t.leaves.Nodup) {i j : Nat}
    {e f : Edit} (hi : es[i]? = some (.leaf k e)) (hj : es[j]? = some (.leaf k f)) : i = j := by
  rw [← filterMap_pair?_flatten h, List.Nodup, List.pairwise_filterMap] at hnodup
  exact index_eq_of_pairwise hnodup hi hj (fun hne => hne k rfl k rfl rfl)
    fun hne => hne k rfl k rfl rfl

theorem totalLength_flatten (w : LinkWidth) (h : t.flatten pairs id = .ok es) :
    totalLength w es = t.byteLength w (leafLength pairs) := by
  refine flatten_induct (P := fun _ t es => totalLength w es = t.byteLength w (leafLength pairs))
    (Q := fun _ children links es => links.length = children.length ∧
      (children.map fun e => 1 + w.bytes + e.2.byteLength w (leafLength pairs)).sum =
        children.length * (1 + w.bytes) + totalLength w es) ?_ ?_ ?_ ?_ ?_ h
  · intro id k edit hedit
    rw [byteLength_leaf, leafLength_eq hedit, totalLength_cons]
    rfl
  · intro id codes t es ih
    rw [byteLength, ← ih, totalLength_cons, Entry.byteLength]
  · intro id children links es ih
    obtain ⟨hlen, hsum⟩ := ih
    rw [byteLength_branch, hsum, totalLength_cons, Entry.byteLength, hlen]
    omega
  · intro id
    simp [totalLength]
  · intro id c t es children links below iht ih
    obtain ⟨hlen, hsum⟩ := ih
    refine ⟨by rw [List.length_cons, List.length_cons, hlen], ?_⟩
    rw [List.map_cons, List.sum_cons, hsum, ← iht, List.length_cons, Nat.succ_mul,
      totalLength_append]
    omega

/-- Links lead forward, to entries that are there. -/
theorem links_flatten (h : t.flatten pairs id = .ok es) :
    0 < es.length ∧ ∀ e ∈ es, ∀ l ∈ e.links, id < l ∧ l < id + es.length := by
  refine flatten_induct
    (P := fun id _ es => 0 < es.length ∧ ∀ e ∈ es, ∀ l ∈ e.links, id < l ∧ l < id + es.length)
    (Q := fun id _ links es => (∀ l ∈ links, id ≤ l.2 ∧ l.2 < id + es.length) ∧
      ∀ e ∈ es, ∀ l ∈ e.links, id < l ∧ l < id + es.length) ?_ ?_ ?_ ?_ ?_ h
  · intro id k edit _
    simp [Entry.links]
  · intro id codes t es ih
    obtain ⟨hpos, hlinks⟩ := ih
    refine ⟨Nat.succ_pos _, ?_⟩
    simp only [List.forall_mem_cons, Entry.links, List.length_cons]
    refine ⟨by simp; omega, fun e he l hl => ?_⟩
    have := hlinks e he l hl
    omega
  · intro id children links es ih
    obtain ⟨hown, hlinks⟩ := ih
    refine ⟨Nat.succ_pos _, ?_⟩
    simp only [List.forall_mem_cons, Entry.links, List.length_cons, List.forall_mem_map]
    constructor
    · intro l hl
      have := hown l hl
      omega
    · intro e he l hl
      have := hlinks e he l hl
      omega
  · intro id
    simp
  · intro id c t es children links below iht ih
    obtain ⟨hpos, ht⟩ := iht
    obtain ⟨hown, hlinks⟩ := ih
    simp only [List.forall_mem_cons, List.length_append, List.forall_mem_append]
    refine ⟨⟨by omega, fun l hl => ?_⟩, fun e he l hl => ?_, fun e he l hl => ?_⟩
    · have := hown l hl
      omega
    · have := ht e he l hl
      omega
    · have := hlinks e he l hl
      omega

/-! Where it starts. -/

/-- The entries of a tree stand in the table, the first of them under `id`. -/
inductive Placed (pairs : Array Pair) (table : List Entry) : Nat → RadixTree → Prop
  | leaf {id k : Nat} {edit : Edit} : editOf pairs k = .ok edit →
    table[id]? = some (.leaf k edit) → Placed pairs table id (leaf k)
  | chain {id : Nat} {codes : List UInt8} {t : RadixTree} :
    table[id]? = some (.chain codes (id + 1)) → Placed pairs table (id + 1) t →
    Placed pairs table id (chain codes t)
  | branch {id : Nat} {children : List (UInt8 × RadixTree)} {links : List (UInt8 × Nat)} :
    table[id]? = some (.branch links) → links.map (·.1) = children.map (·.1) →
    (∀ x ∈ links.zip children, Placed pairs table x.1.2 x.2.2) →
    Placed pairs table id (branch children)

theorem getElem?_of_prefix_drop {table : List Entry} {e : Entry} (h : e :: es <+: table.drop id) :
    table[id]? = some e ∧ es <+: table.drop (id + 1) := by
  obtain ⟨rest, h⟩ := h
  constructor
  · have := congrArg List.head? h
    simpa [List.head?_drop] using this.symm
  · refine ⟨rest, ?_⟩
    have := congrArg List.tail h
    simpa [List.tail_drop] using this

/-- Entries that are put behind others stand behind them in the table too. -/
theorem prefix_drop_of_append {table first below : List Entry}
    (h : first ++ below <+: table.drop id) :
    first <+: table.drop id ∧ below <+: table.drop (id + first.length) := by
  refine ⟨(List.prefix_append first below).trans h, ?_⟩
  obtain ⟨rest, h⟩ := h
  refine ⟨rest, ?_⟩
  rw [← List.drop_drop, ← h, List.append_assoc, List.drop_left]

theorem placed_flatten {table : List Entry} (h : t.flatten pairs id = .ok es)
    (htable : es <+: table.drop id) : Placed pairs table id t := by
  refine flatten_induct
    (P := fun id t es => es <+: table.drop id → Placed pairs table id t)
    (Q := fun id children links es => es <+: table.drop id →
      links.map (·.1) = children.map (·.1) ∧
        ∀ x ∈ links.zip children, Placed pairs table x.1.2 x.2.2) ?_ ?_ ?_ ?_ ?_ h htable
  · intro id k edit hedit htable
    exact .leaf hedit (getElem?_of_prefix_drop htable).1
  · intro id codes t es ih htable
    obtain ⟨hid, htable⟩ := getElem?_of_prefix_drop htable
    exact .chain hid (ih htable)
  · intro id children links es ih htable
    obtain ⟨hid, htable⟩ := getElem?_of_prefix_drop htable
    obtain ⟨hcodes, hbelow⟩ := ih htable
    exact .branch hid hcodes hbelow
  · intro id _
    simp
  · intro id c t es children links below iht ih htable
    obtain ⟨hfirst, hbelow⟩ := prefix_drop_of_append htable
    obtain ⟨hcodes, hchildren⟩ := ih hbelow
    refine ⟨by rw [List.map_cons, List.map_cons, hcodes], ?_⟩
    rw [List.zip_cons_cons, List.forall_mem_cons]
    exact ⟨iht hfirst, hchildren⟩

/-! Whether there is a list. -/

theorem exists_flatten :
    (∃ es, t.flatten pairs id = .ok es) ↔ ∀ k ∈ t.leaves, ∃ edit, editOf pairs k = .ok edit := by
  constructor
  · rintro ⟨es, h⟩
    refine flatten_induct (P := fun _ t _ => ∀ k ∈ t.leaves, ∃ edit, editOf pairs k = .ok edit)
      (Q := fun _ children _ _ => ∀ e ∈ children, ∀ k ∈ e.2.leaves,
        ∃ edit, editOf pairs k = .ok edit) ?_ ?_ ?_ ?_ ?_ h
    · intro id k edit hedit
      rw [leaves]
      exact List.forall_mem_singleton.mpr ⟨edit, hedit⟩
    · intro id codes t es ih
      rwa [leaves]
    · intro id children links es ih
      rw [leaves, List.forall_mem_flatMap]
      exact ih
    · intro id
      simp
    · intro id c t es children links below iht ih
      exact List.forall_mem_cons.mpr ⟨iht, ih⟩
  · intro h
    induction t generalizing id with
    | leaf k =>
      rw [leaves] at h
      obtain ⟨edit, hedit⟩ := h k (by simp)
      exact ⟨_, flatten_leaf.mpr ⟨edit, hedit, rfl⟩⟩
    | chain codes t ih =>
      rw [leaves] at h
      obtain ⟨es, hes⟩ : ∃ es, t.flatten pairs (id + 1) = .ok es := ih h
      exact ⟨_, flatten_chain.mpr ⟨es, hes, rfl⟩⟩
    | branch children ih =>
      rw [leaves, List.forall_mem_flatMap] at h
      have hall : ∀ start, ∃ links es, flattenAll pairs start children = .ok (links, es) := by
        clear id
        induction children with
        | nil => exact fun start => ⟨[], [], flattenAll_nil.mpr ⟨rfl, rfl⟩⟩
        | cons e children ihs =>
          intro start
          obtain ⟨first, hfirst⟩ : ∃ es, e.2.flatten pairs start = .ok es :=
            ih e (by simp) (h e (by simp))
          obtain ⟨links, es, hes⟩ := ihs (fun e he => ih e (by simp [he]))
            (fun e he => h e (by simp [he])) (start + first.length)
          exact ⟨_, _, flattenAll_cons.mpr ⟨first, hfirst, links, es, hes, rfl, rfl⟩⟩
      obtain ⟨links, es, hes⟩ := hall (id + 1)
      exact ⟨_, flatten_branch.mpr ⟨links, es, hes, rfl⟩⟩

/-- There is no other reason for an error than an edit of a leaf. -/
theorem flatten_eq_error {e : CompileError} (h : t.flatten pairs id = .error e) :
    ∃ k ∈ t.leaves, editOf pairs k = .error e := by
  induction t generalizing id with
  | leaf k =>
    rw [flatten] at h
    rcases bind_eq_error.mp h with hedit | ⟨edit, -, hpure⟩
    · exact ⟨k, by rw [leaves]; exact List.mem_singleton_self k, hedit⟩
    · cases hpure
  | chain codes t ih =>
    rw [flatten] at h
    rcases bind_eq_error.mp h with hbelow | ⟨below, -, hpure⟩
    · rw [leaves]
      exact ih hbelow
    · cases hpure
  | branch children ih =>
    rw [flatten] at h
    rcases bind_eq_error.mp h with hbelow | ⟨below, -, hpure⟩
    · rw [leaves]
      clear h
      generalize id + 1 = start at hbelow
      induction children generalizing start with
      | nil => cases hbelow
      | cons child children ihs =>
        obtain ⟨c, t⟩ := child
        rw [List.flatMap_cons]
        rw [flattenAll] at hbelow
        rcases bind_eq_error.mp hbelow with hfirst | ⟨first, -, hrest⟩
        · obtain ⟨k, hk, he⟩ := ih (c, t) (by simp) hfirst
          exact ⟨k, List.mem_append_left _ hk, he⟩
        · rcases bind_eq_error.mp hrest with hlater | ⟨later, -, hpure⟩
          · obtain ⟨k, hk, he⟩ := ihs (fun e he => ih e (by simp [he])) _ hlater
            exact ⟨k, List.mem_append_right _ hk, he⟩
          · cases hpure
    · cases hpure

end RadixTree

/-- The same entry, its leaf under another number. -/
def Entry.renumber (f : Nat → Nat) : Entry → Entry
  | leaf k edit => leaf (f k) edit
  | chain codes next => chain codes next
  | branch children => branch children

namespace RadixTree
variable {ps qs : Array Pair} {f : Nat → Nat} {t : RadixTree} {id : Nat} {es : List Entry}

theorem flatten_renumber (h : t.flatten ps id = .ok es)
    (hf : ∀ k ∈ t.leaves, editOf qs (f k) = editOf ps k) :
    (t.renumber f).flatten qs id = .ok (es.map (Entry.renumber f)) := by
  refine flatten_induct
    (P := fun id t es => (∀ k ∈ t.leaves, editOf qs (f k) = editOf ps k) →
      (t.renumber f).flatten qs id = .ok (es.map (Entry.renumber f)))
    (Q := fun id children links es =>
      (∀ e ∈ children, ∀ k ∈ e.2.leaves, editOf qs (f k) = editOf ps k) →
      flattenAll qs id (children.map fun e => (e.1, e.2.renumber f)) =
        .ok (links, es.map (Entry.renumber f))) ?_ ?_ ?_ ?_ ?_ h hf
  · intro id k edit hedit hf
    rw [leaves] at hf
    rw [renumber]
    exact flatten_leaf.mpr ⟨edit, (hf k (by simp)).trans hedit, rfl⟩
  · intro id codes t es ih hf
    rw [leaves] at hf
    rw [renumber]
    exact flatten_chain.mpr ⟨_, ih hf, rfl⟩
  · intro id children links es ih hf
    rw [leaves, List.forall_mem_flatMap] at hf
    rw [renumber]
    exact flatten_branch.mpr ⟨_, _, ih hf, rfl⟩
  · intro id _
    exact flattenAll_nil.mpr ⟨rfl, rfl⟩
  · intro id c t es children links below iht ih hf
    obtain ⟨ht, hchildren⟩ := List.forall_mem_cons.mp hf
    have hbelow := ih hchildren
    rw [← List.length_map (Entry.renumber f)] at hbelow
    rw [List.map_cons, List.map_append]
    exact flattenAll_cons.mpr ⟨_, iht ht, _, _, hbelow, rfl, rfl⟩

end RadixTree
end Emend
