/-! How a chain of steps that can fail succeeds, and how it fails. -/
namespace Emend

theorem bind_eq_ok {ε α β : Type} {x : Except ε α} {f : α → Except ε β} {b : β} :
    (x >>= f) = .ok b ↔ ∃ a, x = .ok a ∧ f a = .ok b := by
  cases x <;> simp [bind, Except.bind]

theorem bind_eq_error {ε α β : Type} {x : Except ε α} {f : α → Except ε β} {e : ε} :
    (x >>= f) = .error e ↔ x = .error e ∨ ∃ a, x = .ok a ∧ f a = .error e := by
  cases x <;> simp [bind, Except.bind]

theorem pure_eq_ok {ε α : Type} {a b : α} : (pure a : Except ε α) = .ok b ↔ b = a := by
  simp [pure, Except.pure, eq_comm]

theorem exists_of_isOk {ε α : Type} {x : Except ε α} (h : x.isOk = true) : ∃ a, x = .ok a := by
  cases x with
  | error e => cases h
  | ok a => exact ⟨a, rfl⟩

/-- Two outcomes agree up to `f` if both succeed, or fail for the same reason. -/
theorem map_eq_map {ε α β : Type} {x y : Except ε α} {f : α → β} (h : x.map f = y.map f) :
    (∃ a b, x = .ok a ∧ y = .ok b ∧ f a = f b) ∨ ∃ e, x = .error e ∧ y = .error e := by
  cases x <;> cases y <;> simp_all [Except.map]

/-- The outcome with its error and its value each changed. -/
def mapBoth {ε ε' α β : Type} (f : ε → ε') (g : α → β) : Except ε α → Except ε' β
  | .error e => .error (f e)
  | .ok a => .ok (g a)

section mapM
variable {ε α β : Type} {f : α → Except ε β} {l : List α} {ys : List β} {e : ε}

theorem mapM_eq_ok : l.mapM f = .ok ys ↔ l.map f = ys.map .ok := by
  induction l generalizing ys with
  | nil => simp [pure_eq_ok]
  | cons x l ih =>
    simp only [List.mapM_cons, bind_eq_ok, pure_eq_ok, List.map_cons]
    constructor
    · rintro ⟨y, hy, zs, hzs, rfl⟩
      rw [hy, ih.mp hzs, List.map_cons]
    · intro h
      cases ys with
      | nil => cases h
      | cons y zs =>
        obtain ⟨hy, hzs⟩ := List.cons.inj h
        exact ⟨y, hy, zs, ih.mpr hzs, rfl⟩

/-- The error is that of the first member that fails. -/
theorem mapM_eq_error (h : l.mapM f = .error e) : ∃ before x after, l = before ++ x :: after ∧
    (∀ y ∈ before, ∃ z, f y = .ok z) ∧ f x = .error e := by
  induction l with
  | nil => cases h
  | cons x l ih =>
    rw [List.mapM_cons] at h
    rcases bind_eq_error.mp h with hx | ⟨z, hx, h⟩
    · exact ⟨[], x, l, rfl, fun y hy => (by cases hy), hx⟩
    rcases bind_eq_error.mp h with hl | ⟨zs, -, h⟩
    · obtain ⟨before, y, after, rfl, hbefore, hy⟩ := ih hl
      exact ⟨x :: before, y, after, rfl, List.forall_mem_cons.mpr ⟨⟨z, hx⟩, hbefore⟩, hy⟩
    · cases h

theorem mapM_of_error {before after : List α} {x : α} (hbefore : ∀ y ∈ before, ∃ z, f y = .ok z)
    (hx : f x = .error e) : (before ++ x :: after).mapM f = .error e := by
  induction before with
  | nil =>
    rw [List.nil_append, List.mapM_cons, hx]
    rfl
  | cons y before ih =>
    obtain ⟨⟨z, hz⟩, hrest⟩ := List.forall_mem_cons.mp hbefore
    rw [List.cons_append, List.mapM_cons, hz, ih hrest]
    rfl

theorem exists_mapM : (∃ ys, l.mapM f = .ok ys) ↔ ∀ x ∈ l, ∃ y, f x = .ok y := by
  constructor
  · rintro ⟨ys, h⟩ x hx
    have hmem : f x ∈ ys.map .ok := mapM_eq_ok.mp h ▸ List.mem_map_of_mem hx
    obtain ⟨y, -, hy⟩ := List.mem_map.mp hmem
    exact ⟨y, hy.symm⟩
  · intro h
    cases hl : l.mapM f with
    | ok ys => exact ⟨ys, rfl⟩
    | error e =>
      obtain ⟨before, x, after, rfl, -, hx⟩ := mapM_eq_error hl
      obtain ⟨y, hy⟩ := h x (List.mem_append_right _ (List.mem_cons_self ..))
      rw [hx] at hy
      cases hy

end mapM

end Emend
