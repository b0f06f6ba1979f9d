import Emend.Dictionary.Line
import Emend.Proofs.Except
import Emend.Proofs.Text.Lowercase

/-! What a source says, line by line. Each line is read on its own, and every line that is neither
blank nor a comment holds a pair with a typo. -/
namespace Emend

namespace Line
variable {number : Nat} {text : String} {bytes source : List UInt8} {found : List (Option Line)}
  {ls : List Line} {l : Line}

/-- What a line of bytes says. -/
def read (number : Nat) (bytes : List UInt8) : Except LineError (Option Line) :=
  match Text.decodeLine bytes with
  | none => .error (.unreadable .notUtf8)
  | some text => parse number text

/-- The line is text that is neither blank nor a comment. -/
def HoldsPair (bytes : List UInt8) : Prop :=
  ∃ text, Text.decodeLine bytes = some text ∧ Text.trim text.toList ≠ [] ∧
    (Text.trim text.toList).head? ≠ some '#'

theorem parse_eq_none : parse number text = .ok none ↔
    Text.trim text.toList = [] ∨ (Text.trim text.toList).head? = some '#' := by
  have hskip : (Text.trim text.toList).isEmpty || (Text.trim text.toList).head? == some '#' ↔
      Text.trim text.toList = [] ∨ (Text.trim text.toList).head? = some '#' := by simp
  rw [← hskip, parse]
  constructor
  · intro h
    split at h
    next hyes => exact hyes
    next => split at h <;> cases h
  · intro h
    rw [if_pos h]

theorem normalizeTypo_ne_empty {typo : List Char} (h : typo ≠ []) : normalizeTypo typo ≠ "" := by
  intro hempty
  have hlower := Text.length_lower_ge typo
  have hlength := congrArg (·.toList.length) hempty
  simp only [normalizeTypo, String.toList_ofList, List.length_map] at hlength
  rw [hlength] at hlower
  exact h (List.eq_nil_of_length_eq_zero (Nat.le_zero.mp hlower))

theorem typo_ne_nil_of_sides? {text typo correction : List Char}
    (h : sides? text = some (typo, correction)) : typo ≠ [] := by
  unfold sides? at h
  split at h
  next => cases h
  next =>
    simp only at h
    split at h
    next => cases h
    next hne =>
      cases h
      simpa using hne

theorem typo_ne_empty_of_parse (h : parse number text = .ok (some l)) : l.typo ≠ "" := by
  simp only [parse] at h
  split at h
  next => cases h
  next =>
    split at h
    next => cases h
    next hsides =>
      cases h
      exact normalizeTypo_ne_empty (typo_ne_nil_of_sides? hsides)

theorem typo_ne_empty_of_read (h : read number bytes = .ok (some l)) : l.typo ≠ "" := by
  unfold read at h
  split at h
  next => cases h
  next => exact typo_ne_empty_of_parse h

theorem exists_of_read {x : Option Line} (h : read number bytes = .ok x) :
    ∃ text, Text.decodeLine bytes = some text ∧ parse number text = .ok x := by
  unfold read at h
  split at h
  next => cases h
  next text htext => exact ⟨text, htext, h⟩

/-- A line that can be read gives a pair exactly if it holds one. -/
theorem isSome_of_read {x : Option Line} (h : read number bytes = .ok x) :
    x.isSome = true ↔ HoldsPair bytes := by
  obtain ⟨text, htext, hparse⟩ := exists_of_read h
  have hholds : HoldsPair bytes ↔ ¬ parse number text = .ok none := by
    rw [parse_eq_none, not_or]
    constructor
    · rintro ⟨_, htext', hne, hhead⟩
      rw [htext] at htext'
      cases htext'
      exact ⟨hne, hhead⟩
    · rintro ⟨hne, hhead⟩
      exact ⟨text, htext, hne, hhead⟩
  rw [hholds, hparse]
  cases x <;> simp

/-- The loop over the lines reads each of them and keeps the pairs. -/
theorem parseFrom_eq (number : Nat) (done : List Line) (lines : List (List UInt8)) :
    parseFrom number done lines =
      ((lines.zipIdx number).mapM fun e => read e.2 e.1).map
        fun found => done.reverse ++ found.filterMap id := by
  induction lines generalizing number done with
  | nil => simp [parseFrom, Except.map, pure, Except.pure]
  | cons bytes lines ih =>
    rw [parseFrom, List.zipIdx_cons, List.mapM_cons, read]
    cases Text.decodeLine bytes with
    | none => rfl
    | some text =>
      cases hparse : parse number text with
      | error e => simp [hparse, bind, Except.bind, Except.map]
      | ok found =>
        cases hrest : (lines.zipIdx (number + 1)).mapM fun e => read e.2 e.1 with
        | error e => cases found <;> simp [hparse, ih, hrest, bind, Except.bind, Except.map]
        | ok rest =>
          cases found <;>
            simp [hparse, ih, hrest, bind, Except.bind, Except.map, pure, Except.pure]

/-- The loop reads one line at a time. -/
theorem parseFrom_cons (number : Nat) (done : List Line) (bytes : List UInt8)
    (rest : List (List UInt8)) : parseFrom number done (bytes :: rest) =
      match read number bytes with
      | .error e => .error e
      | .ok found => parseFrom (number + 1) (found.toList ++ done) rest := by
  rw [parseFrom, read]
  cases Text.decodeLine bytes with
  | none => rfl
  | some text =>
    cases hparse : parse number text with
    | error e => simp [hparse]
    | ok found => cases found <;> simp [hparse]

/-- `found` is what the lines of a source say, one after the other. -/
def Says (source : List UInt8) (found : List (Option Line)) : Prop :=
  ((Text.splitLines source).zipIdx 1).map (fun e => read e.2 e.1) = found.map .ok

theorem parseAll_eq_ok :
    parseAll source = .ok ls ↔ ∃ found, Says source found ∧ ls = found.filterMap id := by
  simp only [parseAll, parseFrom_eq, Says, ← mapM_eq_ok]
  cases ((Text.splitLines source).zipIdx 1).mapM fun e => read e.2 e.1 with
  | error e => simp [Except.map]
  | ok found => simp [Except.map, eq_comm]

theorem Says.exists_line (h : Says source found) {x : Option Line} (hx : x ∈ found) :
    ∃ number, ∃ bytes ∈ Text.splitLines source, read number bytes = .ok x := by
  have hmem : Except.ok x ∈ found.map (Except.ok (ε := LineError)) := List.mem_map_of_mem hx
  rw [← h] at hmem
  obtain ⟨⟨bytes, number⟩, he, hread⟩ := List.mem_map.mp hmem
  exact ⟨number, bytes, List.fst_mem_of_mem_zipIdx he, hread⟩

theorem Says.exists_found (h : Says source found) (hbytes : bytes ∈ Text.splitLines source) :
    ∃ number, ∃ x ∈ found, read number bytes = .ok x := by
  obtain ⟨i, hi⟩ := List.getElem?_of_mem hbytes
  have he : (bytes, 1 + i) ∈ (Text.splitLines source).zipIdx 1 :=
    List.mk_add_mem_zipIdx_iff_getElem?.mpr hi
  have hmem := List.mem_map_of_mem (f := fun e => read e.2 e.1) he
  rw [h] at hmem
  obtain ⟨x, hx, hread⟩ := List.mem_map.mp hmem
  exact ⟨1 + i, x, hx, hread.symm⟩

theorem typo_ne_empty (h : parseAll source = .ok ls) (hl : l ∈ ls) : l.typo ≠ "" := by
  obtain ⟨found, hsays, rfl⟩ := parseAll_eq_ok.mp h
  obtain ⟨x, hx, rfl⟩ := List.mem_filterMap.mp hl
  obtain ⟨number, bytes, -, hread⟩ := hsays.exists_line hx
  exact typo_ne_empty_of_read hread

/-- A source that can be read has no pair exactly if none of its lines holds one. -/
theorem eq_nil_of_parseAll (h : parseAll source = .ok ls) :
    ls = [] ↔ ∀ bytes ∈ Text.splitLines source, ¬ HoldsPair bytes := by
  obtain ⟨found, hsays, rfl⟩ := parseAll_eq_ok.mp h
  rw [List.filterMap_eq_nil_iff]
  constructor
  · intro hnone bytes hbytes hholds
    obtain ⟨number, x, hx, hread⟩ := hsays.exists_found hbytes
    have hsome := (isSome_of_read hread).mpr hholds
    rw [show x = none from hnone x hx] at hsome
    cases hsome
  · intro hno x hx
    obtain ⟨number, bytes, hbytes, hread⟩ := hsays.exists_line hx
    have hnot : ¬ x.isSome = true := fun hsome => hno bytes hbytes ((isSome_of_read hread).mp hsome)
    simpa using hnot

end Line
end Emend
