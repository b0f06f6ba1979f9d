import Emend.Proofs.Dictionary.Validation

/-! Which warnings are raised. Each line is judged on its own and by the typos before it: a
repeated typo is passed over, and of any other the findings are told. -/
namespace Emend

variable {words : WordList} {least : Nat}

/-- What is warned of in a line that comes after the lines `before`. -/
def Line.warnings (words : WordList) (least : Nat) (before : List Line) (l : Line) :
    List Warning :=
  if l.typo ∈ before.map typo then [.duplicate l.number l.typo]
  else Acceptance.findings words least l

namespace Line
variable {ls before : List Line} {l : Line}

/-- The warnings of lines, in order. -/
def raised (words : WordList) (least : Nat) (ls : List Line) : List Warning :=
  ls.zipIdx.flatMap fun (l, i) => warnings words least (ls.take i) l

theorem raised_append_singleton (ls : List Line) (l : Line) :
    raised words least (ls ++ [l]) = raised words least ls ++ warnings words least ls l := by
  have hkeep : ∀ e ∈ ls.zipIdx, warnings words least ((ls ++ [l]).take e.2) e.1 =
      warnings words least (ls.take e.2) e.1 := by
    intro e he
    have hlt := (List.mem_zipIdx' he).1
    rw [List.take_append_of_le_length (Nat.le_of_lt hlt)]
  simp only [raised]
  rw [List.zipIdx_append, List.flatMap_append, List.flatMap_congr hkeep]
  simp

theorem warnings_of_repeated (h : ∃ k ∈ before, k.typo = l.typo) :
    warnings words least before l = [.duplicate l.number l.typo] := if_pos (List.mem_map.mpr h)

theorem warnings_of_new (h : ∀ k ∈ before, k.typo ≠ l.typo) :
    warnings words least before l = Acceptance.findings words least l := by
  have hnew : l.typo ∉ before.map typo := by
    intro hm
    obtain ⟨k, hk, heq⟩ := List.mem_map.mp hm
    exact h k hk heq
  exact if_neg hnew

/-- No line repeats a typo, so each has its findings. -/
theorem raised_of_pairwise (h : ls.Pairwise fun k l => k.typo ≠ l.typo) :
    raised words least ls = ls.flatMap (Acceptance.findings words least) := by
  induction ls using List.reverseRecOn with
  | nil => rfl
  | append_singleton ls l ih =>
    obtain ⟨hls, -, hl⟩ := List.pairwise_append.mp h
    have hnew : ∀ k ∈ ls, k.typo ≠ l.typo := fun k hk => hl k hk l (List.mem_singleton_self l)
    rw [raised_append_singleton, ih hls, warnings_of_new hnew]
    simp

end Line

namespace Acceptance
variable {v v' : Acceptance} {l : Line} {before ls : List Line}

theorem duplicate_not_mem_findings (n : Nat) (typo : String) (l : Line) :
    Warning.duplicate n typo ∉ findings words least l := by
  intro h
  rcases List.mem_append.mp h with h | h
  · split at h <;> simp at h
  · obtain ⟨c, -, hc⟩ := List.mem_map.mp h
    cases c <;> cases hc

theorem After.step_warnings (hv : After before v) (h : v.step words least l = .ok v') :
    v'.warnings.reverse = v.warnings.reverse ++ l.warnings words least before := by
  unfold step at h
  split at h
  next hseen =>
    cases h
    rw [Line.warnings_of_repeated (hv.seen_iff.mp hseen)]
    simp
  next hseen =>
    rw [Line.warnings_of_new (hv.new_of_seen (Bool.eq_false_iff.mpr hseen))]
    split at h
    next => cases h
    next =>
      split at h
      next => cases h
      next =>
        split at h
        next => cases h
        next =>
          cases h
          simp

theorem After.run_warnings (hv : After before v)
    (hwarnings : v.warnings.reverse = Line.raised words least before)
    (h : v.run words least ls = .ok v') :
    v'.warnings.reverse = Line.raised words least (before ++ ls) := by
  induction ls generalizing v before with
  | nil =>
    cases h
    rwa [List.append_nil]
  | cons l ls ih =>
    rw [run] at h
    split at h
    next w hw =>
      have hstep := hv.step_warnings hw
      rw [hwarnings, ← Line.raised_append_singleton] at hstep
      have hrest := ih (hv.step_ok hw) hstep h
      rwa [List.append_assoc] at hrest
    next => cases h

end Acceptance

theorem warnings_of_accept {ls : List Line} {ps : List Pair} {ws : List Warning}
    (h : accept words least ls = .ok (ps, ws)) : ws = Line.raised words least ls := by
  unfold accept at h
  split at h
  next v hv =>
    cases h
    exact Acceptance.after_start.run_warnings rfl hv
  next => cases h

end Emend
