/-! Members of lists: the first with a key, one at a position, the one that a relation singles
out, all of them one by one. -/
namespace Emend

theorem lookup_cons_ite {κ α : Type} [DecidableEq κ] (c d : κ) (x : α) (es : List (κ × α)) :
    ((d, x) :: es).lookup c = if c = d then some x else es.lookup c := by
  rw [List.lookup_cons]
  by_cases h : c = d
  · simp [h]
  · simp [h, beq_false_of_ne h]

/-- What succeeds on each member succeeds on all. -/
theorem mapM_eq_some_map {α β : Type} {f : α → Option β} {g : α → β} {l : List α}
    (h : ∀ x ∈ l, f x = some (g x)) : l.mapM f = some (l.map g) := by
  induction l with
  | nil => rfl
  | cons x l ih =>
    obtain ⟨hx, hl⟩ := List.forall_mem_cons.mp h
    rw [List.mapM_cons, hx, ih hl]
    rfl

/-- Past the members before it, a member comes first. -/
theorem drop_flatMap {α β : Type} {l : List α} {i : Nat} {x : α} (f : α → List β)
    (h : l[i]? = some x) : (l.flatMap f).drop ((l.take i).flatMap f).length =
      f x ++ (l.drop (i + 1)).flatMap f := by
  obtain ⟨hi, rfl⟩ := List.getElem?_eq_some_iff.mp h
  have hcut : l.flatMap f = (l.take i).flatMap f ++ (l.drop i).flatMap f := by
    rw [← List.flatMap_append, List.take_append_drop]
  rw [hcut, List.drop_left, List.drop_eq_getElem_cons hi, List.flatMap_cons]

/-- Members that do not stand in a relation that holds along the list are one and the same. -/
theorem index_eq_of_pairwise {α : Type} {R : α → α → Prop} {l : List α} {a b : α} {i j : Nat}
    (h : l.Pairwise R) (hi : l[i]? = some a) (hj : l[j]? = some b) (hab : ¬ R a b)
    (hba : ¬ R b a) : i = j := by
  obtain ⟨hil, rfl⟩ := List.getElem?_eq_some_iff.mp hi
  obtain ⟨hjl, rfl⟩ := List.getElem?_eq_some_iff.mp hj
  have hall := List.pairwise_iff_getElem.mp h
  rcases Nat.lt_trichotomy i j with hlt | heq | hgt
  · exact (hab (hall i j hil hjl hlt)).elim
  · exact heq
  · exact (hba (hall j i hjl hil hgt)).elim

end Emend
