import Emend.Dictionary.Source
import Emend.Proofs.Except

/-! Warnings say something about a dictionary and change nothing in it: whatever words and whatever
least length are used, the same lines are accepted, and refused for the same reason. -/
namespace Emend

variable (words words' : WordList) (least least' : Nat)

namespace Acceptance
variable {v v' : Acceptance}

/-- A step looks at the pairs accepted so far, not at the warnings. -/
theorem map_accepted_step (l : Line) (h : v.accepted = v'.accepted) :
    (v.step words least l).map (·.accepted) = (v'.step words' least' l).map (·.accepted) := by
  have hseen : v.seen l.typo = v'.seen l.typo := by rw [seen, seen, h]
  have hoverlap : v.overlap? l.typo = v'.overlap? l.typo := by rw [overlap?, overlap?, h]
  simp only [step, hseen, hoverlap]
  split
  · exact congrArg Except.ok h
  · split
    · rfl
    · split
      · rfl
      · split
        · rfl
        · exact congrArg (fun ps => Except.ok (⟨l.typo, l.correction⟩ :: ps)) h

theorem map_accepted_run (ls : List Line) (h : v.accepted = v'.accepted) :
    (v.run words least ls).map (·.accepted) = (v'.run words' least' ls).map (·.accepted) := by
  induction ls generalizing v v' with
  | nil => exact congrArg Except.ok h
  | cons l ls ih =>
    have hstep := map_accepted_step words words' least least' l h
    rw [run, run]
    rcases map_eq_map hstep with ⟨w, w', hw, hw', heq⟩ | ⟨e, hw, hw'⟩
    · rw [hw, hw']
      exact ih heq
    · rw [hw, hw']

end Acceptance

theorem map_fst_accept (ls : List Line) :
    (accept words least ls).map (·.1) = (accept words' least' ls).map (·.1) := by
  have hrun : (Acceptance.start.run words least ls).map (·.accepted) =
      (Acceptance.start.run words' least' ls).map (·.accepted) :=
    Acceptance.map_accepted_run words words' least least' ls rfl
  rw [accept, accept]
  rcases map_eq_map hrun with ⟨v, v', hv, hv', heq⟩ | ⟨e, hv, hv'⟩
  · rw [hv, hv']
    exact congrArg (fun ps => Except.ok ps.reverse) heq
  · rw [hv, hv']

/-- The dictionary of a source, or what is wrong with it, does not depend on what is warned of. -/
theorem VettedDictionary.map_dictionary_ofBytes (name : String) (source : List UInt8) :
    (ofBytes name source words least).map (·.dictionary) =
      (ofBytes name source words' least').map (·.dictionary) := by
  rw [ofBytes, ofBytes]
  cases Line.parseAll source with
  | error e => rfl
  | ok ls =>
    have haccept := map_fst_accept words words' least least' ls
    rcases map_eq_map haccept with ⟨⟨ps, ws⟩, ⟨qs, ws'⟩, h, h', heq⟩ | ⟨e, h, h'⟩
    · obtain rfl : ps = qs := heq
      simp only [h, h', Except.map]
    · simp only [h, h']

end Emend
