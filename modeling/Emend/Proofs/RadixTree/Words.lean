import Emend.Proofs.Alphabet
import Emend.Proofs.Edges
import Emend.RadixTree

/-! The words that a radix tree spells. A tree that is as short as it can be is determined by
them. -/
namespace Emend.RadixTree
open Alphabet (IsCode)

theorem sizeOf_child_lt {children : List (UInt8 × RadixTree)} {e : UInt8 × RadixTree}
    (h : e ∈ children) : sizeOf e.2 < 1 + sizeOf children := by
  have hlt := List.sizeOf_lt_of_mem h
  obtain ⟨c, t⟩ := e
  simp only [Prod.mk.sizeOf_spec] at hlt ⊢
  omega

/-- Trees by their constructors, with the hypothesis for every child of a branch. -/
@[elab_as_elim, induction_eliminator]
theorem induct {motive : RadixTree → Prop} (leaf : ∀ k, motive (leaf k))
    (chain : ∀ codes next, motive next → motive (chain codes next))
    (branch : ∀ children, (∀ e ∈ children, motive e.2) → motive (branch children)) :
    ∀ t, motive t
  | .leaf k => leaf k
  | .chain codes next => chain codes next (induct leaf chain branch next)
  | .branch children => branch children fun e he =>
    have := sizeOf_child_lt he
    induct leaf chain branch e.2

/-- The codes `w` lead through the tree to the leaf of pair `k`. -/
inductive Spells : RadixTree → List UInt8 → Nat → Prop
  | leaf (k : Nat) : Spells (leaf k) [] k
  | chain {codes w : List UInt8} {next : RadixTree} {k : Nat} :
    Spells next w k → Spells (chain codes next) (codes ++ w) k
  | branch {children : List (UInt8 × RadixTree)} {c : UInt8} {t : RadixTree} {w : List UInt8}
    {k : Nat} : (c, t) ∈ children → Spells t w k → Spells (branch children) (c :: w) k

/-- No step can be left out: chains are joined, and a branch has a choice to offer. -/
inductive Canonical : RadixTree → Prop
  | leaf (k : Nat) : Canonical (leaf k)
  | prepend {c : UInt8} {t : RadixTree} : IsCode c → Canonical t → Canonical (t.prepend c)
  | branch {children : List (UInt8 × RadixTree)} : 2 ≤ children.length → Ascending children →
    (∀ e ∈ children, IsCode e.1) → (∀ e ∈ children, Canonical e.2) → Canonical (branch children)

variable {t u : RadixTree} {children : List (UInt8 × RadixTree)} {c : UInt8}
  {codes v w : List UInt8} {k l : Nat}

theorem spells_leaf : Spells (leaf l) w k ↔ w = [] ∧ k = l := by
  constructor
  · intro h
    cases h
    exact ⟨rfl, rfl⟩
  · rintro ⟨rfl, rfl⟩
    exact .leaf k

theorem spells_chain {next : RadixTree} :
    Spells (chain codes next) w k ↔ ∃ v, w = codes ++ v ∧ Spells next v k := by
  constructor
  · intro h
    cases h with
    | chain h => exact ⟨_, rfl, h⟩
  · rintro ⟨v, rfl, h⟩
    exact .chain h

theorem spells_branch :
    Spells (branch children) w k ↔ ∃ c t v, (c, t) ∈ children ∧ w = c :: v ∧ Spells t v k := by
  constructor
  · intro h
    cases h with
    | branch hm h => exact ⟨_, _, _, hm, rfl, h⟩
  · rintro ⟨c, t, v, hm, rfl, h⟩
    exact .branch hm h

theorem spells_prepend : Spells (t.prepend c) w k ↔ ∃ v, w = c :: v ∧ Spells t v k := by
  cases t with
  | leaf l => simp [prepend, spells_chain]
  | branch children => simp [prepend, spells_chain]
  | chain codes next =>
    rw [prepend, spells_chain]
    constructor
    · rintro ⟨v, rfl, h⟩
      exact ⟨codes ++ v, rfl, .chain h⟩
    · rintro ⟨_, rfl, h⟩
      cases h with
      | chain h => exact ⟨_, rfl, h⟩

theorem Canonical.exists_spells (h : Canonical t) : ∃ w k, Spells t w k := by
  induction h with
  | leaf k => exact ⟨[], k, .leaf k⟩
  | @prepend c t _ _ ih =>
    obtain ⟨w, k, h⟩ := ih
    exact ⟨c :: w, k, spells_prepend.mpr ⟨w, rfl, h⟩⟩
  | @branch children hlen _ _ _ ih =>
    obtain ⟨e, he⟩ := List.exists_mem_of_length_pos (show 0 < children.length by omega)
    obtain ⟨w, k, h⟩ := ih e he
    exact ⟨e.1 :: w, k, .branch he h⟩

/-- A branch spells words that differ in their first code. -/
theorem exists_spells_of_branch (hlen : 2 ≤ children.length) (hasc : Ascending children)
    (hc : ∀ e ∈ children, Canonical e.2) :
    ∃ c d v w k l, c ≠ d ∧ Spells (branch children) (c :: v) k ∧
      Spells (branch children) (d :: w) l := by
  match children, hlen with
  | a :: b :: rest, _ =>
    obtain ⟨v, k, hv⟩ := (hc a (by simp)).exists_spells
    obtain ⟨w, l, hw⟩ := (hc b (by simp)).exists_spells
    have hab : a.1 < b.1 := (List.pairwise_cons.mp hasc).1 b (by simp)
    exact ⟨a.1, b.1, v, w, k, l, UInt8.ne_of_lt hab, .branch (by simp) hv, .branch (by simp) hw⟩

/-- A canonical tree whose words all start with one code is a chain. -/
theorem Canonical.eq_prepend (h : Canonical t) (hw : ∀ w k, Spells t w k → ∃ v, w = c :: v) :
    ∃ u, t = u.prepend c ∧ Canonical u := by
  cases h with
  | leaf k =>
    obtain ⟨v, hv⟩ := hw [] k (.leaf k)
    cases hv
  | @prepend d u _ hu =>
    obtain ⟨v, k, hv⟩ := hu.exists_spells
    obtain ⟨_, he⟩ := hw (d :: v) k (spells_prepend.mpr ⟨v, rfl, hv⟩)
    cases he
    exact ⟨u, rfl, hu⟩
  | branch hlen hasc _ hc =>
    obtain ⟨a, b, v, w, k, l, hab, hv, hw'⟩ := exists_spells_of_branch hlen hasc hc
    obtain ⟨_, ha⟩ := hw _ _ hv
    obtain ⟨_, hb⟩ := hw _ _ hw'
    cases ha
    cases hb
    exact (hab rfl).elim

theorem Canonical.eq_leaf (h : Canonical t) (hw : ∀ w k, Spells t w k → w = []) :
    ∃ k, t = RadixTree.leaf k := by
  cases h with
  | leaf k => exact ⟨k, rfl⟩
  | prepend _ hu =>
    obtain ⟨v, k, hv⟩ := hu.exists_spells
    cases hw _ k (spells_prepend.mpr ⟨v, rfl, hv⟩)
  | branch hlen hasc _ hc =>
    obtain ⟨a, _, v, _, k, _, _, hv, _⟩ := exists_spells_of_branch hlen hasc hc
    cases hw _ _ hv

/-- A canonical tree whose words differ in their first code is a branch. -/
theorem Canonical.eq_branch {d : UInt8} (h : Canonical t) (hcd : c ≠ d)
    (hv : Spells t (c :: v) k) (hw : Spells t (d :: w) l) :
    ∃ children, t = RadixTree.branch children := by
  cases h with
  | leaf m => cases hv
  | prepend _ _ =>
    obtain ⟨_, hc, _⟩ := spells_prepend.mp hv
    obtain ⟨_, hd, _⟩ := spells_prepend.mp hw
    cases hc
    cases hd
    exact (hcd rfl).elim
  | branch _ _ _ _ => exact ⟨_, rfl⟩

theorem Canonical.of_branch (h : Canonical (RadixTree.branch children)) :
    2 ≤ children.length ∧ Ascending children ∧ (∀ e ∈ children, IsCode e.1) ∧
      ∀ e ∈ children, Canonical e.2 := by
  generalize ht : RadixTree.branch children = t at h
  cases h with
  | leaf k => cases ht
  | @prepend c t _ _ => cases t <;> cases ht
  | branch hlen hasc hcode hc =>
    cases ht
    exact ⟨hlen, hasc, hcode, hc⟩

theorem Canonical.of_chain {next : RadixTree} (h : Canonical (chain codes next)) :
    codes ≠ [] ∧ (∀ c ∈ codes, IsCode c) ∧ Canonical next ∧ ∀ ds u, next ≠ chain ds u := by
  generalize ht : chain codes next = t at h
  induction h generalizing codes with
  | leaf k => cases ht
  | branch _ _ _ _ => cases ht
  | @prepend c t hcode hc ih =>
    cases t with
    | leaf k =>
      cases ht
      exact ⟨by simp, by simpa using hcode, hc, by simp⟩
    | branch children =>
      cases ht
      exact ⟨by simp, by simpa using hcode, hc, by simp⟩
    | chain codes next =>
      cases ht
      obtain ⟨_, hcodes, hnext⟩ := ih rfl
      exact ⟨by simp, List.forall_mem_cons.mpr ⟨hcode, hcodes⟩, hnext⟩

theorem spells_child (hasc : Ascending children) (hm : (c, t) ∈ children) :
    Spells (branch children) (c :: w) k ↔ Spells t w k := by
  constructor
  · intro h
    cases h with
    | branch hm' h =>
      rw [hasc.eq_of_mem hm hm']
      exact h
  · exact .branch hm

/-- The words determine the tree. -/
theorem Canonical.ext (ht : Canonical t) (hu : Canonical u)
    (h : ∀ w k, Spells t w k ↔ Spells u w k) : t = u := by
  induction ht generalizing u with
  | leaf k =>
    obtain ⟨l, rfl⟩ := hu.eq_leaf fun w l hw => (spells_leaf.mp ((h w l).mpr hw)).1
    have hk := (spells_leaf.mp ((h [] k).mp (.leaf k))).2
    rw [hk]
  | @prepend c t _ _ ih =>
    obtain ⟨u, rfl, hu'⟩ := hu.eq_prepend (c := c) fun w l hw =>
      let ⟨v, hv, _⟩ := spells_prepend.mp ((h w l).mpr hw)
      ⟨v, hv⟩
    have hrest : ∀ w k, Spells t w k ↔ Spells u w k := by
      intro w k
      simpa [spells_prepend] using h (c :: w) k
    rw [ih hu' hrest]
  | @branch children hlen hasc _ hc ih =>
    obtain ⟨a, b, v, w, k, l, hab, hv, hw⟩ := exists_spells_of_branch hlen hasc hc
    obtain ⟨others, rfl⟩ := hu.eq_branch hab ((h _ _).mp hv) ((h _ _).mp hw)
    obtain ⟨-, hasc', -, hc'⟩ := hu.of_branch
    have hsame : ∀ d x y, (d, x) ∈ children → (d, y) ∈ others → x = y := by
      intro d x y hx hy
      refine ih _ hx (hc' _ hy) fun w k => ?_
      rw [← spells_child hasc hx, ← spells_child hasc' hy]
      exact h _ _
    have hmem : ∀ e, e ∈ children ↔ e ∈ others := by
      rintro ⟨d, x⟩
      constructor
      · intro hx
        obtain ⟨w, k, hs⟩ := (hc _ hx).exists_spells
        cases (h _ _).mp (.branch hx hs) with
        | branch hy _ => rwa [hsame d x _ hx hy]
      · intro hy
        obtain ⟨w, k, hs⟩ := (hc' _ hy).exists_spells
        cases (h _ _).mpr (.branch hy hs) with
        | branch hx _ => rwa [← hsame d _ x hx hy]
    rw [hasc.eq_of_mem_iff hasc' hmem]

/-! Leaves. -/

/-- The pairs of the leaves, from left to right. -/
def leaves : RadixTree → List Nat
  | leaf k => [k]
  | chain _ next => next.leaves
  | branch children => children.flatMap fun e => e.2.leaves
decreasing_by
  · simp only [chain.sizeOf_spec]
    omega
  · simpa only [branch.sizeOf_spec] using sizeOf_child_lt ‹_›

theorem mem_leaves : k ∈ t.leaves ↔ ∃ w, Spells t w k := by
  induction t with
  | leaf l => simp [leaves, spells_leaf]
  | chain codes next ih =>
    rw [leaves, ih]
    constructor
    · rintro ⟨w, h⟩
      exact ⟨codes ++ w, .chain h⟩
    · rintro ⟨_, h⟩
      cases h with
      | chain h => exact ⟨_, h⟩
  | branch children ih =>
    rw [leaves, List.mem_flatMap]
    constructor
    · rintro ⟨e, he, hk⟩
      obtain ⟨w, h⟩ := (ih e he).mp hk
      exact ⟨e.1 :: w, .branch he h⟩
    · rintro ⟨_, h⟩
      cases h with
      | branch hm h => exact ⟨_, hm, (ih _ hm).mpr ⟨_, h⟩⟩

/-- If pairs have one word each, no two leaves are of one pair. -/
theorem Canonical.nodup_leaves (ht : Canonical t)
    (h : ∀ v w k, Spells t v k → Spells t w k → v = w) : t.leaves.Nodup := by
  induction t with
  | leaf k => simp [leaves]
  | chain codes next ih =>
    rw [leaves]
    refine ih ht.of_chain.2.2.1 fun v w k hv hw => ?_
    exact List.append_cancel_left (h _ _ k (.chain hv) (.chain hw))
  | branch children ih =>
    obtain ⟨-, hasc, -, hc⟩ := ht.of_branch
    rw [leaves, List.Nodup, List.pairwise_flatMap]
    constructor
    · intro e he
      refine ih e he (hc e he) fun v w k hv hw => ?_
      exact (List.cons.inj (h _ _ k (.branch he hv) (.branch he hw))).2
    · refine hasc.imp_of_mem fun ha hb hab k hka l hlb hkl => ?_
      subst hkl
      obtain ⟨v, hv⟩ := mem_leaves.mp hka
      obtain ⟨w, hw⟩ := mem_leaves.mp hlb
      have heq := h _ _ k (.branch ha hv) (.branch hb hw)
      rw [(List.cons.inj heq).1] at hab
      exact UInt8.lt_irrefl _ hab

/-! Renumbering. -/

/-- The same tree, its leaves under other numbers. -/
def renumber (f : Nat → Nat) : RadixTree → RadixTree
  | leaf k => leaf (f k)
  | chain codes next => chain codes (next.renumber f)
  | branch children => branch (children.map fun e => (e.1, e.2.renumber f))
decreasing_by
  · simp only [chain.sizeOf_spec]
    omega
  · simpa only [branch.sizeOf_spec] using sizeOf_child_lt ‹_›

theorem renumber_prepend {f : Nat → Nat} :
    (t.prepend c).renumber f = (t.renumber f).prepend c := by
  cases t <;> simp only [prepend, renumber]

theorem Canonical.renumber (f : Nat → Nat) (h : Canonical t) : Canonical (t.renumber f) := by
  induction h with
  | leaf k =>
    rw [RadixTree.renumber]
    exact .leaf (f k)
  | prepend hcode _ ih =>
    rw [renumber_prepend]
    exact .prepend hcode ih
  | branch hlen hasc hcode _ ih =>
    rw [RadixTree.renumber]
    refine .branch (by rwa [List.length_map]) ((Ascending.map_snd _).mpr hasc) ?_ ?_
    · rw [List.forall_mem_map]
      exact hcode
    · rw [List.forall_mem_map]
      exact ih

theorem spells_renumber {f : Nat → Nat} :
    Spells (t.renumber f) w l ↔ ∃ k, l = f k ∧ Spells t w k := by
  induction t generalizing w with
  | leaf k =>
    simp only [renumber, spells_leaf]
    constructor
    · rintro ⟨rfl, rfl⟩
      exact ⟨k, rfl, rfl, rfl⟩
    · rintro ⟨_, rfl, rfl, rfl⟩
      exact ⟨rfl, rfl⟩
  | chain codes next ih =>
    simp only [renumber, spells_chain, ih]
    constructor
    · rintro ⟨v, rfl, k, rfl, h⟩
      exact ⟨k, rfl, v, rfl, h⟩
    · rintro ⟨k, rfl, v, rfl, h⟩
      exact ⟨v, rfl, k, rfl, h⟩
  | branch children ih =>
    simp only [renumber, spells_branch]
    constructor
    · rintro ⟨_, _, v, hm, rfl, h⟩
      obtain ⟨⟨c, t⟩, ht, he⟩ := List.mem_map.mp hm
      cases he
      obtain ⟨k, rfl, hk⟩ := (ih _ ht).mp h
      exact ⟨k, rfl, c, t, v, ht, rfl, hk⟩
    · rintro ⟨k, rfl, c, t, v, ht, rfl, hk⟩
      exact ⟨c, _, v, List.mem_map_of_mem ht, rfl, (ih _ ht).mpr ⟨k, rfl, hk⟩⟩

end Emend.RadixTree
