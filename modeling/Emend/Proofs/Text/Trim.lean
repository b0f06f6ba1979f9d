import Emend.Text.Blank

/-! Trimming. Blanks at the two ends of a text do not count, and a text without any stays as it
is. -/
namespace Emend.Text
variable {c : Char} {cs ds part before after : List Char}

/-- No blank at either end. -/
structure Trimmed (cs : List Char) : Prop where
  first : ∀ c, cs.head? = some c → isBlank c = false
  last : ∀ c, cs.getLast? = some c → isBlank c = false

/-- `part` is the text less the blanks at its two ends. -/
structure Trims (text part : List Char) : Prop where
  ends : ∃ before after, text = before ++ (part ++ after) ∧
    (∀ c ∈ before, isBlank c = true) ∧ ∀ c ∈ after, isBlank c = true
  trimmed : Trimmed part

theorem prefix_trimRight (cs : List Char) : trimRight cs <+: cs := by
  rw [← List.reverse_suffix, trimRight, List.reverse_reverse]
  exact List.dropWhile_suffix _

theorem trim_infix (cs : List Char) : trim cs <:+: cs :=
  (prefix_trimRight _).isInfix.trans (List.dropWhile_suffix _).isInfix

theorem isBlank_of_mem_takeWhile (h : c ∈ cs.takeWhile isBlank) : isBlank c = true :=
  List.all_eq_true.mp List.all_takeWhile c h

theorem mem_dropWhile_isBlank (hc : isBlank c = false) :
    c ∈ cs.dropWhile isBlank ↔ c ∈ cs := by
  refine ⟨fun h => (List.dropWhile_suffix _).subset h, fun h => ?_⟩
  rw [← List.takeWhile_append_dropWhile (p := isBlank) (l := cs), List.mem_append] at h
  refine h.resolve_left fun htaken => ?_
  rw [isBlank_of_mem_takeWhile htaken] at hc
  cases hc

theorem mem_trim (hc : isBlank c = false) : c ∈ trim cs ↔ c ∈ cs := by
  rw [trim, trimRight, List.mem_reverse, mem_dropWhile_isBlank hc, List.mem_reverse, trimLeft,
    mem_dropWhile_isBlank hc]

theorem trimLeft_eq_self (h : ∀ c, cs.head? = some c → isBlank c = false) : trimLeft cs = cs := by
  cases cs with
  | nil => rfl
  | cons c cs => simp [trimLeft, h c rfl]

theorem trimRight_eq_self (h : ∀ c, cs.getLast? = some c → isBlank c = false) :
    trimRight cs = cs := by
  have hleft : trimLeft cs.reverse = cs.reverse := by
    apply trimLeft_eq_self
    intro c hc
    rw [List.head?_reverse] at hc
    exact h c hc
  unfold trimLeft at hleft
  rw [trimRight, hleft, List.reverse_reverse]

theorem trim_eq_self (h : Trimmed cs) : trim cs = cs := by
  rw [trim, trimLeft_eq_self h.first, trimRight_eq_self h.last]

theorem head?_trimLeft (h : (trimLeft cs).head? = some c) : isBlank c = false := by
  have hnot := List.head?_dropWhile_not isBlank cs
  unfold trimLeft at h
  rw [h] at hnot
  simpa using hnot

theorem getLast?_trimRight (h : (trimRight cs).getLast? = some c) : isBlank c = false := by
  rw [trimRight, List.getLast?_reverse] at h
  exact head?_trimLeft h

theorem trimmed_trim (cs : List Char) : Trimmed (trim cs) where
  first c hc := by
    obtain ⟨rest, hrest⟩ := prefix_trimRight (trimLeft cs)
    have hleft : (trimLeft cs).head? = some c := by
      unfold trim at hc
      rw [← hrest, List.head?_append, hc, Option.some_or]
    exact head?_trimLeft hleft
  last c hc := getLast?_trimRight hc

theorem trimmed_append (hcs : cs ≠ []) (hfirst : ∀ c, cs.head? = some c → isBlank c = false)
    (between : List Char) (hds : ds ≠ []) (hlast : ∀ c, ds.getLast? = some c → isBlank c = false) :
    Trimmed (cs ++ (between ++ ds)) where
  first c hc := by
    rw [List.head?_append, List.head?_eq_some_head hcs, Option.some_or] at hc
    exact hfirst c (hc ▸ List.head?_eq_some_head hcs)
  last c hc := by
    rw [← List.append_assoc, List.getLast?_append, List.getLast?_eq_some_getLast hds,
      Option.some_or] at hc
    exact hlast c (hc ▸ List.getLast?_eq_some_getLast hds)

theorem trim_cons (hc : isBlank c = true) : trim (c :: cs) = trim cs := by
  simp [trim, trimLeft, hc]

theorem trim_concat (hc : isBlank c = true) : trim (cs ++ [c]) = trim cs := by
  unfold trim trimLeft
  rw [List.dropWhile_append]
  split
  next hall =>
    rw [List.isEmpty_iff.mp hall]
    simp [hc]
  next => simp [trimRight, hc]

theorem trim_append_left (h : ∀ c ∈ before, isBlank c = true) : trim (before ++ cs) = trim cs := by
  induction before with
  | nil => rfl
  | cons c before ih =>
    obtain ⟨hc, hbefore⟩ := List.forall_mem_cons.mp h
    rw [List.cons_append, trim_cons hc, ih hbefore]

theorem trim_append_right (h : ∀ c ∈ after, isBlank c = true) : trim (cs ++ after) = trim cs := by
  induction after generalizing cs with
  | nil => rw [List.append_nil]
  | cons c after ih =>
    obtain ⟨hc, hafter⟩ := List.forall_mem_cons.mp h
    rw [List.append_cons, ih hafter, trim_concat hc]

theorem trims_trim (cs : List Char) : Trims cs (trim cs) where
  ends := by
    have hleft : cs = cs.takeWhile isBlank ++ trimLeft cs := List.takeWhile_append_dropWhile.symm
    have hright : trimLeft cs =
        trim cs ++ ((trimLeft cs).reverse.takeWhile isBlank).reverse := by
      rw [trim, trimRight, ← List.reverse_append, List.takeWhile_append_dropWhile,
        List.reverse_reverse]
    refine ⟨_, _, hright ▸ hleft, fun c hc => ?_, fun c hc => ?_⟩
    · exact isBlank_of_mem_takeWhile hc
    · exact isBlank_of_mem_takeWhile (List.mem_reverse.mp hc)
  trimmed := trimmed_trim cs

/-- There is one way to trim a text. -/
theorem trims_iff : Trims cs part ↔ part = trim cs := by
  constructor
  · rintro ⟨⟨before, after, rfl, hbefore, hafter⟩, htrimmed⟩
    rw [trim_append_left hbefore, trim_append_right hafter, trim_eq_self htrimmed]
  · rintro rfl
    exact trims_trim cs

end Emend.Text
