import Emend.Proofs.Dictionary.Lines
import Emend.Proofs.Text.Encoding
import Emend.Proofs.Text.Lines
import Emend.Proofs.Text.Separator
import Emend.Proofs.Text.Trim

/-! The form of a source. What a line may say is told by its text alone, and the whole source is
read if and only if each of its lines may stand in it. -/
namespace Emend.Line
variable {number i : Nat} {text text' : String} {cs passed before after : List Char}
  {bytes line source : List UInt8} {found : List (Option Line)} {ls : List Line} {l : Line}
  {e : LineError} {typo correction : List Char}

/-- What stands between a typo and its correction. -/
def arrow : List Char := ['-', '>']

/-- A line of text that is blank or a comment. -/
inductive Silent : List UInt8 → Prop
  | blank {text : String} (h : Text.trim text.toList = []) : Silent (Text.utf8 text)
  | comment {text : String} (h : (Text.trim text.toList).head? = some '#') :
      Silent (Text.utf8 text)

/-- A line of text with an arrow behind something that is not blank gives a typo, in lowercase and
with a colon for each space, and its correction. -/
inductive Gives : List UInt8 → String → String → Prop
  | pair {text : String} {before after : List Char}
      (hcomment : (Text.trim text.toList).head? ≠ some '#')
      (harrow : Text.Splits arrow (Text.trim text.toList) before after)
      (htypo : Text.trim before ≠ []) :
      Gives (Text.utf8 text)
        (String.ofList ((Text.lower (Text.trim before)).map fun c => if c = ' ' then ':' else c))
        (String.ofList (Text.trim after))

/-- A line that may stand in a source. -/
def Regular (bytes : List UInt8) : Prop :=
  Silent bytes ∨ ∃ typo correction, Gives bytes typo correction

/-- What is wrong with the line of this number. -/
inductive Fault (number : Nat) : List UInt8 → LineError → Prop
  | notText {bytes : List UInt8} (h : ∀ text, bytes ≠ Text.utf8 text) :
      Fault number bytes (.unreadable .notUtf8)
  | noPair {text : String} (hblank : Text.trim text.toList ≠ [])
      (hcomment : (Text.trim text.toList).head? ≠ some '#')
      (harrow : ∀ before after, Text.Splits arrow (Text.trim text.toList) before after →
        Text.trim before = []) :
      Fault number (Text.utf8 text) (.badSyntax number (String.ofList (Text.trim text.toList)))

/-! The first arrow. -/

theorem splitArrowFrom_arrow (passed after : List Char) :
    splitArrowFrom passed (arrow ++ after) = some (passed.reverse, after) := rfl

theorem splitArrowFrom_cons {c : Char} (h : ¬ arrow <+: c :: cs) :
    splitArrowFrom passed (c :: cs) = splitArrowFrom (c :: passed) cs := by
  apply splitArrowFrom.eq_3
  rintro after rfl rfl
  exact h ⟨after, rfl⟩

theorem splitArrowFrom_eq_some : splitArrowFrom passed cs = some (before, after) ↔
    ∃ rest, before = passed.reverse ++ rest ∧ Text.Splits arrow cs rest after := by
  induction cs generalizing passed with
  | nil =>
    have hno : ∀ rest, ¬ Text.Splits arrow [] rest after := fun rest =>
      Text.not_splits_nil (List.cons_ne_nil _ _)
    simp [splitArrowFrom, hno]
  | cons c cs ih =>
    by_cases h : arrow <+: c :: cs
    · obtain ⟨rest, hrest⟩ := h
      rw [← hrest, splitArrowFrom_arrow]
      simp only [Text.splits_of_prefix, Option.some.injEq, Prod.mk.injEq]
      constructor
      · rintro ⟨rfl, rfl⟩
        exact ⟨[], by simp⟩
      · rintro ⟨_, rfl, rfl, rfl⟩
        simp
    · rw [splitArrowFrom_cons h, ih]
      simp only [Text.splits_cons h, List.reverse_cons, List.append_assoc, List.singleton_append]
      constructor
      · rintro ⟨rest, rfl, hsplits⟩
        exact ⟨c :: rest, rfl, rest, rfl, hsplits⟩
      · rintro ⟨_, rfl, rest, rfl, hsplits⟩
        exact ⟨rest, rfl, hsplits⟩

theorem splitArrow_eq_some :
    splitArrow cs = some (before, after) ↔ Text.Splits arrow cs before after := by
  rw [splitArrow, splitArrowFrom_eq_some]
  simp

theorem sides?_of_splits (h : Text.Splits arrow cs before after) : sides? cs =
    if Text.trim before = [] then none else some (Text.trim before, Text.trim after) := by
  rw [sides?, splitArrow_eq_some.mpr h]
  simp

theorem exists_of_sides? (h : sides? cs = some (typo, correction)) : ∃ before after,
    Text.Splits arrow cs before after ∧ typo = Text.trim before ∧ correction = Text.trim after := by
  cases hsplit : splitArrow cs with
  | none =>
    rw [sides?, hsplit] at h
    cases h
  | some s =>
    obtain ⟨before, after⟩ := s
    have hsplits := splitArrow_eq_some.mp hsplit
    rw [sides?_of_splits hsplits] at h
    split at h
    next => cases h
    next =>
      cases h
      exact ⟨before, after, hsplits, rfl, rfl⟩

theorem sides?_eq_none : sides? cs = none ↔
    ∀ before after, Text.Splits arrow cs before after → Text.trim before = [] := by
  constructor
  · intro h before after hsplits
    rw [sides?_of_splits hsplits] at h
    split at h
    next hblank => exact hblank
    next => cases h
  · intro h
    rw [Option.eq_none_iff_forall_ne_some]
    rintro ⟨typo, correction⟩ hsides
    obtain ⟨before, after, hsplits, rfl, -⟩ := exists_of_sides? hsides
    exact typo_ne_nil_of_sides? hsides (h before after hsplits)

/-! One line. -/

theorem read_utf8 (number : Nat) (text : String) :
    read number (Text.utf8 text) = parse number text := by
  simp [read, Text.decodeLine_utf8]

/-- A line that says something is searched for an arrow. -/
theorem parse_of_speaking (hblank : Text.trim text.toList ≠ [])
    (hcomment : (Text.trim text.toList).head? ≠ some '#') :
    parse number text = match sides? (Text.trim text.toList) with
      | none => .error (.badSyntax number (String.ofList (Text.trim text.toList)))
      | some (typo, correction) =>
        .ok (some ⟨number, normalizeTypo typo, String.ofList correction⟩) := by
  have hspeaks : ¬ ((Text.trim text.toList).isEmpty ||
      (Text.trim text.toList).head? == some '#') = true := by
    simp [hblank, hcomment]
  exact if_neg hspeaks

theorem read_of_silent (h : Silent bytes) : read number bytes = .ok none := by
  cases h with
  | blank h => rw [read_utf8, parse_eq_none.mpr (Or.inl h)]
  | comment h => rw [read_utf8, parse_eq_none.mpr (Or.inr h)]

theorem read_of_gives {typo correction : String} (h : Gives bytes typo correction) :
    read number bytes = .ok (some ⟨number, typo, correction⟩) := by
  cases h with
  | @pair text before after hcomment harrow htypo =>
    have hblank : Text.trim text.toList ≠ [] := by
      rw [harrow.eq]
      simp [arrow]
    rw [read_utf8, parse_of_speaking hblank hcomment, sides?_of_splits harrow, if_neg htypo]
    rfl

theorem read_of_fault (h : Fault number bytes e) : read number bytes = .error e := by
  cases h with
  | notText h => simp [read, Text.decodeLine_eq_none.mpr h]
  | noPair hblank hcomment harrow =>
    rw [read_utf8, parse_of_speaking hblank hcomment, sides?_eq_none.mpr harrow]

/-- A line says nothing, gives a pair, or is wrong. -/
theorem line_cases (number : Nat) (bytes : List UInt8) : Silent bytes ∨
    (∃ typo correction, Gives bytes typo correction) ∨ ∃ e, Fault number bytes e := by
  by_cases htext : ∃ text, bytes = Text.utf8 text
  · obtain ⟨text, rfl⟩ := htext
    by_cases hblank : Text.trim text.toList = []
    · exact Or.inl (.blank hblank)
    · by_cases hcomment : (Text.trim text.toList).head? = some '#'
      · exact Or.inl (.comment hcomment)
      · right
        by_cases harrow : ∃ before after,
            Text.Splits arrow (Text.trim text.toList) before after ∧ Text.trim before ≠ []
        · obtain ⟨before, after, hsplits, htypo⟩ := harrow
          exact Or.inl ⟨_, _, .pair hcomment hsplits htypo⟩
        · refine Or.inr ⟨_, .noPair hblank hcomment fun before after hsplits => ?_⟩
          by_cases htypo : Text.trim before = []
          · exact htypo
          · exact absurd ⟨before, after, hsplits, htypo⟩ harrow
  · refine Or.inr (Or.inr ⟨_, .notText fun text heq => ?_⟩)
    exact htext ⟨text, heq⟩

theorem read_eq_some :
    read number bytes = .ok (some l) ↔ l.number = number ∧ Gives bytes l.typo l.correction := by
  constructor
  · intro h
    rcases line_cases number bytes with hsilent | ⟨typo, correction, hgives⟩ | ⟨e, hfault⟩
    · rw [read_of_silent hsilent] at h
      cases h
    · rw [read_of_gives hgives] at h
      cases h
      exact ⟨rfl, hgives⟩
    · rw [read_of_fault hfault] at h
      cases h
  · rintro ⟨rfl, hgives⟩
    exact read_of_gives hgives

theorem exists_read_iff : (∃ x, read number bytes = .ok x) ↔ Regular bytes := by
  constructor
  · rintro ⟨x, h⟩
    rcases line_cases number bytes with hsilent | hgives | ⟨e, hfault⟩
    · exact Or.inl hsilent
    · exact Or.inr hgives
    · rw [read_of_fault hfault] at h
      cases h
  · rintro (hsilent | ⟨typo, correction, hgives⟩)
    · exact ⟨none, read_of_silent hsilent⟩
    · exact ⟨_, read_of_gives hgives⟩

theorem read_eq_error : read number bytes = .error e ↔ Fault number bytes e := by
  constructor
  · intro h
    rcases line_cases number bytes with hsilent | ⟨typo, correction, hgives⟩ | ⟨e', hfault⟩
    · rw [read_of_silent hsilent] at h
      cases h
    · rw [read_of_gives hgives] at h
      cases h
    · rw [read_of_fault hfault] at h
      cases h
      exact hfault
  · exact read_of_fault

/-! A carriage return at the end of a line. -/

theorem parse_congr (h : Text.trim text.toList = Text.trim text'.toList) :
    parse number text = parse number text' := by
  simp only [parse, h]

theorem read_return (number : Nat) (line : List UInt8) :
    read number (line ++ [Text.carriageReturn]) = read number line := by
  by_cases htext : ∃ text, line = Text.utf8 text
  · obtain ⟨text, rfl⟩ := htext
    have hpush : Text.utf8 text ++ [Text.carriageReturn] = Text.utf8 (text.push '\r') := by
      rw [Text.utf8_eq, Text.utf8_eq, String.toList_push, List.flatMap_append]
      rfl
    rw [hpush, read_utf8, read_utf8]
    apply parse_congr
    rw [String.toList_push, Text.trim_concat (by decide)]
  · have hline : ∀ text, line ≠ Text.utf8 text := fun text heq => htext ⟨text, heq⟩
    have hreturn : ∀ text, line ++ [Text.carriageReturn] ≠ Text.utf8 text := by
      intro text heq
      obtain ⟨front, -, hfront, -⟩ := Text.exists_of_utf8_concat (by decide) heq
      exact hline front hfront
    simp only [read, Text.decodeLine_eq_none.mpr hline, Text.decodeLine_eq_none.mpr hreturn]

theorem read_dropReturn (number : Nat) (line : List UInt8) :
    read number (Text.dropReturn line) = read number line := by
  rcases Text.dropReturn_cases line with h | h
  · rw [← h]
  · have hreturn := read_return number (Text.dropReturn line)
    rw [← h] at hreturn
    exact hreturn.symm

/-! All lines. -/

theorem Says.read_eq (h : Says source found) (i : Nat) :
    ((Text.splitLines source)[i]?).map (read (i + 1)) = (found[i]?).map .ok := by
  have hi := congrArg (·[i]?) h
  simpa [Nat.add_comm, Option.map_map, Function.comp_def] using hi

/-- The pairs are those of the lines that give one, each at its place. -/
theorem Says.mem_iff (h : Says source found) : some l ∈ found ↔ ∃ i bytes,
    (Text.splitLines source)[i]? = some bytes ∧ l.number = i + 1 ∧
      Gives bytes l.typo l.correction := by
  rw [List.mem_iff_getElem?]
  constructor
  · rintro ⟨i, hi⟩
    have hread := h.read_eq i
    rw [hi, Option.map_some, Option.map_eq_some_iff] at hread
    obtain ⟨bytes, hbytes, hread⟩ := hread
    exact ⟨i, bytes, hbytes, read_eq_some.mp hread⟩
  · rintro ⟨i, bytes, hbytes, hl⟩
    have hread := h.read_eq i
    rw [hbytes, Option.map_some, read_eq_some.mpr hl] at hread
    obtain ⟨x, hx, hok⟩ := Option.map_eq_some_iff.mp hread.symm
    cases hok
    exact ⟨i, hx⟩

theorem Says.ascending (h : Says source found) :
    (found.filterMap id).Pairwise fun k l => k.number < l.number := by
  have hnumber : ∀ i l, found[i]? = some (some l) → l.number = i + 1 := by
    intro i l hi
    have hread := h.read_eq i
    rw [hi, Option.map_some, Option.map_eq_some_iff] at hread
    obtain ⟨bytes, -, hread⟩ := hread
    exact (read_eq_some.mp hread).1
  rw [List.pairwise_filterMap, List.pairwise_iff_getElem]
  intro i j hi hj hlt k hk l hl
  have hki := hnumber i k (by rw [List.getElem?_eq_getElem hi]; exact congrArg some hk)
  have hlj := hnumber j l (by rw [List.getElem?_eq_getElem hj]; exact congrArg some hl)
  omega

theorem parseAll_eq_mapM (source : List UInt8) : parseAll source =
    (((Text.splitLines source).zipIdx 1).mapM fun e => read e.2 e.1).map (·.filterMap id) := by
  rw [parseAll, parseFrom_eq]
  rfl

/-- The error is that of the first line that may not stand in the source. -/
theorem parseAll_eq_error : parseAll source = .error e ↔ ∃ front bytes back,
    Text.splitLines source = front ++ bytes :: back ∧ (∀ line ∈ front, Regular line) ∧
      Fault (front.length + 1) bytes e := by
  have hloop : parseAll source = .error e ↔
      ((Text.splitLines source).zipIdx 1).mapM (fun e => read e.2 e.1) = .error e := by
    rw [parseAll_eq_mapM]
    cases ((Text.splitLines source).zipIdx 1).mapM fun e => read e.2 e.1 <;> simp [Except.map]
  rw [hloop]
  constructor
  · intro h
    obtain ⟨front, ⟨bytes, number⟩, back, hcut, hfront, hbytes⟩ := mapM_eq_error h
    have hnumber : number = front.length + 1 := by
      have hget := congrArg (·[front.length]?) hcut
      simp only [List.getElem?_zipIdx, List.getElem?_append_right (Nat.le_refl _), Nat.sub_self,
        List.getElem?_cons_zero, Option.map_eq_some_iff, Prod.mk.injEq] at hget
      obtain ⟨_, -, -, hget⟩ := hget
      omega
    refine ⟨front.map (·.1), bytes, back.map (·.1), ?_, ?_, ?_⟩
    · have hlines := congrArg (List.map (·.1)) hcut
      simpa using hlines
    · intro line hline
      obtain ⟨⟨_, n⟩, hmem, rfl⟩ := List.mem_map.mp hline
      exact exists_read_iff.mp (hfront _ hmem)
    · rw [List.length_map, ← hnumber]
      exact read_eq_error.mp hbytes
  · rintro ⟨front, bytes, back, hcut, hfront, hfault⟩
    rw [hcut, List.zipIdx_append, List.zipIdx_cons]
    refine mapM_of_error (fun y hy => ?_) ?_
    · exact exists_read_iff.mpr (hfront y.1 (List.fst_mem_of_mem_zipIdx hy))
    · rw [Nat.add_comm]
      exact read_of_fault hfault

theorem exists_parseAll_iff :
    (∃ ls, parseAll source = .ok ls) ↔ ∀ bytes ∈ Text.splitLines source, Regular bytes := by
  constructor
  · rintro ⟨ls, h⟩ bytes hbytes
    obtain ⟨found, hsays, -⟩ := parseAll_eq_ok.mp h
    obtain ⟨number, x, -, hread⟩ := hsays.exists_found hbytes
    exact exists_read_iff.mp ⟨x, hread⟩
  · intro h
    cases hparse : parseAll source with
    | ok ls => exact ⟨ls, rfl⟩
    | error e =>
      obtain ⟨front, bytes, back, hcut, -, hfault⟩ := parseAll_eq_error.mp hparse
      have hregular := h bytes (hcut ▸ List.mem_append_right _ List.mem_cons_self)
      obtain ⟨x, hread⟩ := exists_read_iff.mpr hregular
      rw [read_of_fault hfault] at hread
      cases hread

/-- A source is read if and only if each of its lines, trimmed, says nothing or gives a pair. The
pairs come in order, each with the number of its line. Otherwise the first line that does neither is
blamed. -/
theorem parseAll_grammar (source : List UInt8) :
    (∀ lines, Text.Cut source lines ↔ lines = Text.splitLines source) ∧
    (∀ text part, Text.Trims text part ↔ part = Text.trim text) ∧
    ((∃ ls, parseAll source = .ok ls) ↔ ∀ bytes ∈ Text.splitLines source, Regular bytes) ∧
    (∀ ls, parseAll source = .ok ls → ls.Pairwise (fun k l => k.number < l.number) ∧
      ∀ l, l ∈ ls ↔ ∃ i bytes, (Text.splitLines source)[i]? = some bytes ∧ l.number = i + 1 ∧
        Gives bytes l.typo l.correction) ∧
    ∀ e, parseAll source = .error e ↔ ∃ front bytes back,
      Text.splitLines source = front ++ bytes :: back ∧ (∀ line ∈ front, Regular line) ∧
        Fault (front.length + 1) bytes e := by
  refine ⟨fun lines => Text.cut_iff, fun text part => Text.trims_iff, exists_parseAll_iff,
    fun ls h => ?_, fun e => parseAll_eq_error⟩
  obtain ⟨found, hsays, rfl⟩ := parseAll_eq_ok.mp h
  have hascending := hsays.ascending
  refine ⟨hascending, fun l => ?_⟩
  rw [← hsays.mem_iff]
  simp

/-- A comment with an arrow, a dash before an arrow, a blank line and two arrows, with blanks around
what they stand between; then a line that begins with its arrow, before one without any. -/
theorem parseAll_grammar_arrows :
    parseAll (Text.utf8 "# a -> b\r\n-->\n\t \n \tA b \u00A0->  -> C\u3000 \r\n") =
      .ok [⟨2, "-", ""⟩, ⟨4, "a:b", "-> C"⟩] ∧
    (∀ bytes ∈ Text.splitLines
      (Text.utf8 "# a -> b\r\n-->\n\t \n \tA b \u00A0->  -> C\u3000 \r\n"), Regular bytes) ∧
    parseAll (Text.utf8 "a -> b\n -> c\nd") = .error (.badSyntax 2 "-> c") ∧
    ∃ front bytes back, Text.splitLines (Text.utf8 "a -> b\n -> c\nd") = front ++ bytes :: back ∧
      (∀ line ∈ front, Regular line) ∧
      Fault (front.length + 1) bytes (.badSyntax 2 "-> c") := by
  have hread : parseAll
      (Text.utf8 "# a -> b\r\n-->\n\t \n \tA b \u00A0->  -> C\u3000 \r\n") =
        .ok [⟨2, "-", ""⟩, ⟨4, "a:b", "-> C"⟩] := rfl
  have hfault : parseAll (Text.utf8 "a -> b\n -> c\nd") = .error (.badSyntax 2 "-> c") := rfl
  exact ⟨hread, (parseAll_grammar _).2.2.1.mp ⟨_, hread⟩, hfault,
    ((parseAll_grammar _).2.2.2.2 _).mp hfault⟩

end Emend.Line
