import Emend.Proofs.Lists
import Emend.Trie

/-! Lists of edges that ascend by code. Such a list holds each code once, so a look-up finds
exactly the members. -/
namespace Emend

/-- Each code is smaller than those behind it. -/
def Ascending {α : Type} (es : List (UInt8 × α)) : Prop := es.Pairwise fun a b => a.1 < b.1

namespace Ascending
variable {α β : Type} {es fs : List (UInt8 × α)} {c : UInt8} {x y : α}

theorem lookup_eq_some (h : Ascending es) : es.lookup c = some x ↔ (c, x) ∈ es := by
  induction es with
  | nil => simp
  | cons e es ih =>
    obtain ⟨hlt, ht⟩ := List.pairwise_cons.mp h
    obtain ⟨d, y⟩ := e
    rw [lookup_cons_ite, List.mem_cons]
    by_cases hcd : c = d
    · subst hcd
      have hmem : (c, x) ∉ es := fun hm => UInt8.lt_irrefl c (hlt _ hm)
      simp [hmem, eq_comm]
    · simp [hcd, ih ht]

/-- A look-up can leave out one side of an edge or the other. -/
theorem lookup_append_cons {d : UInt8} (h : Ascending (es ++ (d, y) :: fs)) :
    (es ++ (d, y) :: fs).lookup c =
      if c = d then some y else if c < d then es.lookup c else fs.lookup c := by
  obtain ⟨hes, htail, hbetween⟩ := List.pairwise_append.mp h
  obtain ⟨hleast, hfs⟩ := List.pairwise_cons.mp htail
  refine Option.ext fun x => ?_
  rw [h.lookup_eq_some, List.mem_append, List.mem_cons]
  split
  next hcd =>
    subst hcd
    have hbelow : (c, x) ∉ es := fun hm =>
      UInt8.lt_irrefl c (hbetween _ hm _ List.mem_cons_self)
    have habove : (c, x) ∉ fs := fun hm => UInt8.lt_irrefl c (hleast _ hm)
    simp [hbelow, habove, eq_comm]
  next hcd =>
    have hne : (c, x) ≠ (d, y) := fun he => hcd (congrArg Prod.fst he)
    split
    next hlt =>
      have habove : (c, x) ∉ fs := fun hm => UInt8.lt_asymm hlt (hleast _ hm)
      simp [hne, habove, lookup_eq_some hes]
    next hlt =>
      have hbelow : (c, x) ∉ es := fun hm => hlt (hbetween _ hm _ List.mem_cons_self)
      simp [hne, hbelow, lookup_eq_some hfs]

theorem eq_of_mem (h : Ascending es) (hx : (c, x) ∈ es) (hy : (c, y) ∈ es) : x = y := by
  have hl := h.lookup_eq_some.mpr hx
  rw [h.lookup_eq_some.mpr hy] at hl
  exact (Option.some.inj hl).symm

theorem nodup (h : Ascending es) : es.Nodup := by
  refine List.Pairwise.imp ?_ h
  intro a b hab he
  subst he
  exact UInt8.lt_irrefl a.1 hab

/-- Lists with the same members are equal. -/
theorem eq_of_mem_iff (he : Ascending es) (hf : Ascending fs) (h : ∀ e, e ∈ es ↔ e ∈ fs) :
    es = fs := by
  have hp := (List.perm_ext_iff_of_nodup he.nodup hf.nodup).mpr h
  refine List.Perm.eq_of_pairwise (fun a b _ _ hab hba => ?_) he hf hp
  exact (UInt8.lt_asymm hab hba).elim

theorem map_snd (f : α → β) : Ascending (es.map fun e => (e.1, f e.2)) ↔ Ascending es := by
  simp [Ascending, List.pairwise_map]

end Ascending

namespace Node
variable {n : Node} {es : List (UInt8 × Nat)} {c d : UInt8} {i j : Nat}

theorem lookup_insertEdge (h : es.lookup c = none) :
    (insertEdge c i es).lookup d = if d = c then some i else es.lookup d := by
  induction es with
  | nil => rw [insertEdge, lookup_cons_ite]
  | cons e es ih =>
    obtain ⟨b, j⟩ := e
    rw [lookup_cons_ite] at h
    split at h
    next => cases h
    next hcb =>
      rw [insertEdge]
      split
      · rw [lookup_cons_ite]
      · rw [lookup_cons_ite, ih h, lookup_cons_ite]
        by_cases hd : d = c
        · simp [hd, hcb]
        · simp [hd]

theorem mem_insertEdge {e : UInt8 × Nat} : e ∈ insertEdge c i es ↔ e = (c, i) ∨ e ∈ es := by
  induction es with
  | nil => simp [insertEdge]
  | cons f es ih =>
    obtain ⟨b, j⟩ := f
    rw [insertEdge]
    split
    · simp
    · rw [List.mem_cons, List.mem_cons, ih]
      exact or_left_comm

theorem ascending_insertEdge (hs : Ascending es) (h : es.lookup c = none) :
    Ascending (insertEdge c i es) := by
  induction es with
  | nil => simp [Ascending, insertEdge]
  | cons e es ih =>
    obtain ⟨b, j⟩ := e
    obtain ⟨hlt, ht⟩ := List.pairwise_cons.mp hs
    rw [lookup_cons_ite] at h
    split at h
    next => cases h
    next hne =>
      rw [insertEdge]
      split
      next hcb =>
        refine List.pairwise_cons.mpr ⟨?_, hs⟩
        intro e he
        rcases List.mem_cons.mp he with rfl | he
        · exact hcb
        · exact UInt8.lt_trans hcb (hlt e he)
      next hcb =>
        have hbc : b < c := (UInt8.lt_or_lt_of_ne hne).resolve_left hcb
        refine List.pairwise_cons.mpr ⟨?_, ih ht h⟩
        intro e he
        rcases mem_insertEdge.mp he with rfl | he
        · exact hbc
        · exact hlt e he

theorem child?_addEdge (h : n.child? c = none) :
    (n.addEdge c i).child? d = if d = c then some i else n.child? d :=
  lookup_insertEdge h

/-- The target of the edge with a code, searched for in one half of the edges or the other. -/
def bisect (code : UInt8) (edges : List (UInt8 × Nat)) : Option Nat :=
  match h : edges.drop (edges.length / 2) with
  | [] => none
  | (c, j) :: above =>
    if code = c then some j
    else if code < c then bisect code (edges.take (edges.length / 2))
    else bisect code above
termination_by edges.length
decreasing_by
  all_goals
    have hlength := congrArg List.length h
    simp only [List.length_drop, List.length_cons, List.length_take] at hlength ⊢
    omega

theorem bisect_eq_lookup (hs : Ascending es) : bisect c es = es.lookup c := by
  induction h : es.length using Nat.strongRecOn generalizing es with
  | ind n ih =>
    subst h
    have hcut := List.take_append_drop (es.length / 2) es
    rw [bisect]
    split
    next hdrop =>
      have hlength := congrArg List.length hdrop
      rw [List.length_drop, List.length_nil] at hlength
      rw [List.eq_nil_of_length_eq_zero (show es.length = 0 by omega)]
      rfl
    next d j above hdrop =>
      rw [hdrop] at hcut
      have hlength := congrArg List.length hcut
      rw [List.length_append, List.length_cons] at hlength
      generalize es.take (es.length / 2) = below at hcut hlength
      subst hcut
      obtain ⟨hbelow, habove, -⟩ := List.pairwise_append.mp hs
      rw [hs.lookup_append_cons, ih _ (by omega) hbelow rfl,
        ih _ (by omega) (List.pairwise_cons.mp habove).2 rfl]

theorem exists_child (h : n.edges ≠ []) : ∃ c j, n.child? c = some j := by
  obtain ⟨⟨c, j⟩, es, he⟩ := List.exists_cons_of_ne_nil h
  exact ⟨c, j, by rw [child?, he, lookup_cons_ite, if_pos rfl]⟩

end Node
end Emend
