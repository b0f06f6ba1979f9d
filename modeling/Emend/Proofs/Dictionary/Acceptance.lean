import Emend.Dictionary.Source

/-! How a line is taken, and why it is turned down. -/
namespace Emend

namespace Text
variable {part text s t : List Char}

theorem occursIn_iff : occursIn part text = true ↔ part <:+: text := by
  induction text with
  | nil => simp [occursIn]
  | cons c text ih =>
    rw [occursIn, Bool.or_eq_true, ih, List.isPrefixOf_iff_prefix, List.infix_cons_iff]

theorem overlaps_iff : overlaps s t = true ↔ s <:+: t ∨ t <:+: s := by
  rw [overlaps, Bool.or_eq_true, occursIn_iff, occursIn_iff]

end Text

/-- Neither typo occurs in the other. -/
def Pair.Disjoint (p q : Pair) : Prop :=
  ¬ p.typo.toList <:+: q.typo.toList ∧ ¬ q.typo.toList <:+: p.typo.toList

def Line.pair (l : Line) : Pair := ⟨l.typo, l.correction⟩

namespace Acceptance
variable {words : WordList} {least : Nat} {v v' : Acceptance} {l : Line} {e : Rejection}

theorem disjoint_of_overlap? (h : v.overlap? l.typo = none) :
    ∀ p ∈ v.accepted, l.pair.Disjoint p := by
  intro p hp
  have hnone : v.accepted.reverse.find? (fun p => Text.overlaps p.typo.toList l.typo.toList) =
      none := Option.map_eq_none_iff.mp h
  have hno := List.find?_eq_none.mp hnone p (List.mem_reverse.mpr hp)
  rw [Text.overlaps_iff, not_or] at hno
  exact ⟨hno.2, hno.1⟩

theorem exists_of_overlap? {other : String} (h : v.overlap? l.typo = some other) :
    ∃ p ∈ v.accepted, p.typo = other ∧ ¬ l.pair.Disjoint p := by
  obtain ⟨p, hp, hother⟩ := Option.map_eq_some_iff.mp h
  have ho := List.find?_some hp
  refine ⟨p, List.mem_reverse.mp (List.mem_of_find?_eq_some hp), hother, fun hd => ?_⟩
  rcases Text.overlaps_iff.mp ho with h | h
  · exact hd.2 h
  · exact hd.1 h

/-- A line is passed over, or its pair overlaps none of those accepted before. -/
theorem step_eq_ok (h : v.step words least l = .ok v') :
    v.seen l.typo = true ∧ v'.accepted = v.accepted ∨
    v.seen l.typo = false ∧ v'.accepted = l.pair :: v.accepted ∧
      (∀ p ∈ v.accepted, l.pair.Disjoint p) ∧
      l.typo.toList.all Alphabet.contains = true ∧ l.typo.length ≤ typoLimit := by
  unfold step at h
  split at h
  next hseen =>
    cases h
    exact Or.inl ⟨hseen, rfl⟩
  next hseen =>
    split at h
    next => cases h
    next hall =>
      split at h
      next => cases h
      next hnone =>
        split at h
        next => cases h
        next hlen =>
          cases h
          exact Or.inr ⟨Bool.eq_false_iff.mpr hseen, rfl, disjoint_of_overlap? hnone,
            by simpa using hall, Nat.le_of_not_lt hlen⟩

/-- A line that is turned down has a typo that was not seen before, and the fault that the error
tells. -/
theorem step_eq_error (h : v.step words least l = .error e) : v.seen l.typo = false ∧
    (e = .foreignCharacter l.number l.typo ∧ l.typo.toList.all Alphabet.contains = false ∨
      (∃ p ∈ v.accepted, e = .substring l.number l.typo p.typo ∧ ¬ l.pair.Disjoint p) ∨
      e = .tooLong l.number l.typo ∧ typoLimit < l.typo.length) := by
  unfold step at h
  split at h
  next => cases h
  next hseen =>
    refine ⟨Bool.eq_false_iff.mpr hseen, ?_⟩
    split at h
    next hall =>
      cases h
      exact Or.inl ⟨rfl, by simpa using hall⟩
    next =>
      split at h
      next hother =>
        cases h
        obtain ⟨p, hp, rfl, hd⟩ := exists_of_overlap? hother
        exact Or.inr (Or.inl ⟨p, hp, rfl, hd⟩)
      next =>
        split at h
        next hlen =>
          cases h
          exact Or.inr (Or.inr ⟨rfl, hlen⟩)
        next => cases h

end Acceptance
end Emend
