/-! Where a separator first stands in a text. -/
namespace Emend.Text
variable {part text before after cs : List Char} {c : Char}

/-- `before` and `after` are what stands around the first `part` in the text. -/
structure Splits (part text before after : List Char) : Prop where
  eq : text = before ++ (part ++ after)
  first : ∀ front back, text = front ++ (part ++ back) → before.length ≤ front.length

theorem Splits.unique {before' after' : List Char} (h : Splits part text before after)
    (h' : Splits part text before' after') : before = before' ∧ after = after' := by
  have hle := h.first before' after' h'.eq
  have hge := h'.first before after h.eq
  have heq := h.eq.symm.trans h'.eq
  obtain ⟨hbefore, hrest⟩ := List.append_inj heq (Nat.le_antisymm hle hge)
  exact ⟨hbefore, List.append_cancel_left hrest⟩

theorem splits_of_prefix : Splits part (part ++ cs) before after ↔ before = [] ∧ after = cs := by
  have hstart : Splits part (part ++ cs) [] cs := ⟨rfl, fun _ _ _ => Nat.zero_le _⟩
  constructor
  · intro h
    exact h.unique hstart
  · rintro ⟨rfl, rfl⟩
    exact hstart

/-- If the text does not begin with it, the separator is looked for behind the first character. -/
theorem splits_cons (hno : ¬ part <+: c :: text) : Splits part (c :: text) before after ↔
    ∃ rest, before = c :: rest ∧ Splits part text rest after := by
  constructor
  · intro h
    cases before with
    | nil => exact absurd ⟨after, h.eq.symm⟩ hno
    | cons d rest =>
      obtain ⟨rfl, htext⟩ := List.cons.inj h.eq
      refine ⟨rest, rfl, htext, fun front back heq => ?_⟩
      have hlength := h.first (c :: front) back (congrArg (c :: ·) heq)
      exact Nat.le_of_succ_le_succ hlength
  · rintro ⟨rest, rfl, h⟩
    refine ⟨congrArg (c :: ·) h.eq, fun front back heq => ?_⟩
    cases front with
    | nil => exact absurd ⟨back, heq.symm⟩ hno
    | cons d front =>
      obtain ⟨-, htext⟩ := List.cons.inj heq
      exact Nat.succ_le_succ (h.first front back htext)

theorem not_splits_nil (hpart : part ≠ []) : ¬ Splits part [] before after := by
  intro h
  have hnil := h.eq
  simp [hpart] at hnil

/-- A separator whose first character is not in `before` is not met there. -/
theorem splits_of_not_mem (hc : c ∉ before) :
    Splits (c :: part) (before ++ (c :: part ++ after)) before after := by
  refine ⟨rfl, fun front back heq => ?_⟩
  apply Nat.le_of_not_lt
  intro hlt
  have hget : (before ++ (c :: part ++ after))[front.length]? = some c := by
    rw [heq]
    simp
  rw [List.getElem?_append_left hlt] at hget
  exact hc (List.mem_of_getElem? hget)

end Emend.Text
