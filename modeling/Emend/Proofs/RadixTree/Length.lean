import Mathlib.Algebra.GroupWithZero.Nat
import Mathlib.Algebra.Order.BigOperators.Group.List
import Mathlib.Algebra.Order.Group.Nat
import Emend.LinkWidth
import Emend.Proofs.RadixTree.Words

/-! How many bytes a radix tree takes. A canonical tree takes fewer if it spells fewer words. -/
namespace Emend.RadixTree

/-- The bytes of a tree in a table whose leaf of pair `k` takes `leafLength k` bytes. -/
def byteLength (w : LinkWidth) (leafLength : Nat → Nat) : RadixTree → Nat
  | leaf k => leafLength k
  | chain codes next => codes.length + 1 + next.byteLength w leafLength
  | branch children =>
    (children.map fun e => 1 + w.bytes + e.2.byteLength w leafLength).sum + 1
decreasing_by
  · simp only [chain.sizeOf_spec]
    omega
  · simpa only [branch.sizeOf_spec] using sizeOf_child_lt ‹_›

variable {w : LinkWidth} {f g : Nat → Nat} {t u : RadixTree} {c : UInt8}
  {children others : List (UInt8 × RadixTree)} {k : Nat}

theorem byteLength_leaf : (leaf k).byteLength w f = f k := by rw [byteLength]

theorem byteLength_branch : (branch children).byteLength w f =
    (children.map fun e => 1 + w.bytes + e.2.byteLength w f).sum + 1 := by rw [byteLength]

theorem byteLength_prepend_le : (t.prepend c).byteLength w f ≤ t.byteLength w f + 2 := by
  cases t <;> simp only [prepend, byteLength, List.length_cons, List.length_nil] <;> omega

/-- A chain grows by the code alone. -/
theorem byteLength_prepend_prepend {d : UInt8} :
    ((t.prepend d).prepend c).byteLength w f = (t.prepend d).byteLength w f + 1 := by
  cases t <;> simp only [prepend, byteLength, List.length_cons, List.length_nil] <;> omega

/-- Anything else needs a chain of its own. -/
theorem byteLength_prepend_leaf :
    ((leaf k).prepend c).byteLength w f = (leaf k).byteLength w f + 2 := by
  simp only [prepend, byteLength, List.length_singleton]
  omega

theorem byteLength_prepend_branch :
    ((branch children).prepend c).byteLength w f = (branch children).byteLength w f + 2 := by
  simp only [prepend, byteLength, List.length_singleton]
  omega

/-- The bytes of a leaf are among those of its tree. -/
theorem leafLength_le {v : List UInt8} (h : Spells t v k) : f k ≤ t.byteLength w f := by
  induction h with
  | leaf k => exact Nat.le_of_eq byteLength_leaf.symm
  | chain hs ih =>
    rw [byteLength]
    omega
  | @branch children c t v k hm hs ih =>
    have hle : 1 + w.bytes + t.byteLength w f ≤
        (children.map fun e => 1 + w.bytes + e.2.byteLength w f).sum :=
      List.le_sum_of_mem (List.mem_map.mpr ⟨(c, t), hm, rfl⟩)
    rw [byteLength_branch]
    omega

theorem byteLength_congr (h : ∀ v k, Spells t v k → f k = g k) :
    t.byteLength w f = t.byteLength w g := by
  induction t with
  | leaf k => simpa only [byteLength_leaf] using h [] k (.leaf k)
  | chain codes next ih =>
    rw [byteLength, byteLength, ih fun v k hv => h _ k (.chain hv)]
  | branch children ih =>
    have hmap : (children.map fun e => 1 + w.bytes + e.2.byteLength w f) =
        children.map fun e => 1 + w.bytes + e.2.byteLength w g := by
      refine List.map_congr_left fun e he => ?_
      rw [ih e he fun v k hv => h _ k (.branch he hv)]
    rw [byteLength_branch, byteLength_branch, hmap]

/-- Edges that all lead to a tree of `children`, or to a shorter one, take less room unless they
are the same. -/
theorem sum_lt_of_ascending {F : RadixTree → Nat} (hpos : ∀ t, 0 < F t)
    (hc : Ascending children) (ho : Ascending others)
    (h : ∀ c u, (c, u) ∈ others → ∃ t, (c, t) ∈ children ∧ (u = t ∨ F u < F t)) :
    others = children ∨
      (others.map fun e => F e.2).sum < (children.map fun e => F e.2).sum := by
  induction children generalizing others with
  | nil =>
    cases others with
    | nil => exact Or.inl rfl
    | cons o others =>
      obtain ⟨t, ht, _⟩ := h o.1 o.2 (by simp)
      cases ht
  | cons e children ih =>
    obtain ⟨c, t⟩ := e
    have ht := hpos t
    have hc' := (List.pairwise_cons.mp hc).2
    have hlater : ∀ d u, c < d → (d, u) ∈ others →
        ∃ t', (d, t') ∈ children ∧ (u = t' ∨ F u < F t') := by
      intro d u hcd hu
      obtain ⟨t', ht', hle⟩ := h d u hu
      rcases List.mem_cons.mp ht' with heq | ht'
      · cases heq
        exact (UInt8.lt_irrefl _ hcd).elim
      · exact ⟨t', ht', hle⟩
    simp only [List.map_cons, List.sum_cons]
    cases others with
    | nil =>
      right
      simp only [List.map_nil, List.sum_nil]
      omega
    | cons o others =>
      obtain ⟨d, u⟩ := o
      obtain ⟨hd, ho'⟩ := List.pairwise_cons.mp ho
      obtain ⟨t', ht', hle⟩ := h d u (by simp)
      rcases List.mem_cons.mp ht' with heq | ht'
      · cases heq
        have hrest := ih hc' ho' fun d u hu => hlater d u (hd _ hu) (List.mem_cons_of_mem _ hu)
        simp only [List.map_cons, List.sum_cons]
        rcases hle with rfl | hlt <;> rcases hrest with rfl | hrest
        · exact Or.inl rfl
        all_goals exact Or.inr (by omega)
      · have hcd : c < d := (List.pairwise_cons.mp hc).1 _ ht'
        have hrest := ih hc' ho fun d' u' hu => by
          refine hlater d' u' ?_ hu
          rcases List.mem_cons.mp hu with heq | hu
          · cases heq
            exact hcd
          · exact UInt8.lt_trans hcd (hd _ hu)
        right
        rcases hrest with hrest | hrest
        · rw [hrest]
          omega
        · omega

theorem sum_le_sum {α : Type} {F G : α → Nat} {l : List α} (h : ∀ x ∈ l, F x ≤ G x) :
    (l.map F).sum ≤ (l.map G).sum := by
  induction l with
  | nil => exact Nat.le_refl 0
  | cons x l ih =>
    obtain ⟨hx, hl⟩ := List.forall_mem_cons.mp h
    exact Nat.add_le_add hx (ih hl)

theorem length_le_sum {α : Type} {F : α → Nat} (h : ∀ x, 1 ≤ F x) (l : List α) :
    l.length ≤ (l.map F).sum := by
  have hle : (l.map fun _ => 1).sum ≤ (l.map F).sum := sum_le_sum fun x _ => h x
  rwa [List.map_const', List.sum_replicate_nat, Nat.mul_one] at hle

/-- One child with a step of its own takes less than the branch it was taken from. -/
theorem byteLength_prepend_lt_branch (hlen : 2 ≤ children.length) (hm : (c, t) ∈ children)
    (hle : u.byteLength w f ≤ t.byteLength w f) :
    (u.prepend c).byteLength w f < (branch children).byteLength w f := by
  obtain ⟨before, after, rfl⟩ := List.append_of_mem hm
  have hstep : ∀ e : UInt8 × RadixTree, 1 ≤ 1 + w.bytes + e.2.byteLength w f := by
    intro e
    omega
  have hb := length_le_sum hstep before
  have ha := length_le_sum hstep after
  have hu := byteLength_prepend_le (w := w) (f := f) (t := u) (c := c)
  simp only [List.length_append, List.length_cons] at hlen
  simp only [byteLength_branch, List.map_append, List.map_cons, List.sum_append_nat, List.sum_cons]
  omega

/-- A canonical tree that spells only words of another is that tree or takes fewer bytes. -/
theorem Canonical.eq_or_byteLength_lt (ht : Canonical t) (hu : Canonical u)
    (h : ∀ v k, Spells u v k → Spells t v k) :
    u = t ∨ u.byteLength w f < t.byteLength w f := by
  induction ht generalizing u with
  | leaf k =>
    obtain ⟨l, rfl⟩ := hu.eq_leaf fun v l hv => (spells_leaf.mp (h v l hv)).1
    have hk := (spells_leaf.mp (h [] l (.leaf l))).2
    exact Or.inl (by rw [hk])
  | @prepend c t _ ht ih =>
    obtain ⟨u, rfl, hu'⟩ := hu.eq_prepend (c := c) fun v l hv =>
      let ⟨v, hv, _⟩ := spells_prepend.mp (h v l hv)
      ⟨v, hv⟩
    have hrest : ∀ v k, Spells u v k → Spells t v k := by
      intro v k
      simpa [spells_prepend] using h (c :: v) k
    rcases ih hu' hrest with rfl | hlt
    · exact Or.inl rfl
    · right
      cases ht with
      | leaf k =>
        have := byteLength_prepend_le (w := w) (f := f) (t := u) (c := c)
        rw [byteLength_prepend_leaf]
        omega
      | branch _ _ _ _ =>
        have := byteLength_prepend_le (w := w) (f := f) (t := u) (c := c)
        rw [byteLength_prepend_branch]
        omega
      | @prepend d t _ _ =>
        -- The chain below stays a chain, so neither tree needs a new one.
        obtain ⟨u, rfl, _⟩ := hu'.eq_prepend (c := d) fun v l hv =>
          let ⟨v, hv, _⟩ := spells_prepend.mp (hrest v l hv)
          ⟨v, hv⟩
        rw [byteLength_prepend_prepend, byteLength_prepend_prepend]
        omega
  | @branch children hlen hasc _ hc ih =>
    have hchild : ∀ c u, Canonical u →
        (∀ v k, Spells u v k → Spells (.branch children) (c :: v) k) →
        ∃ t, (c, t) ∈ children ∧ (u = t ∨ u.byteLength w f < t.byteLength w f) := by
      intro c u hu hsub
      obtain ⟨v, k, hv⟩ := hu.exists_spells
      cases hsub v k hv with
      | @branch _ _ t _ _ hm _ =>
        exact ⟨t, hm, ih _ hm hu fun v k hv => (spells_child hasc hm).mp (hsub v k hv)⟩
    cases hu with
    | leaf l => cases h [] l (.leaf l)
    | @prepend c u _ hu =>
      right
      obtain ⟨t, hm, hle⟩ := hchild c u hu fun v k hv => h _ k (spells_prepend.mpr ⟨v, rfl, hv⟩)
      refine byteLength_prepend_lt_branch hlen hm ?_
      rcases hle with rfl | hlt
      · exact Nat.le_refl _
      · exact Nat.le_of_lt hlt
    | @branch others _ hasc' _ hc' =>
      have hF : ∀ t : RadixTree, 0 < 1 + w.bytes + t.byteLength w f := fun t => by omega
      have hsum := sum_lt_of_ascending hF hasc hasc' fun c u hm => by
        obtain ⟨t, ht, hle⟩ := hchild c u (hc' _ hm) fun v k hv => h _ k (.branch hm hv)
        exact ⟨t, ht, hle.imp_right fun hlt => by omega⟩
      rw [byteLength_branch, byteLength_branch]
      rcases hsum with rfl | hlt
      · exact Or.inl rfl
      · exact Or.inr (by omega)

end Emend.RadixTree
