import Emend.Dictionary.Source
import Emend.Proofs.Dictionary.Grammar

/-! Line ends, blank lines and comments. None of them has a say in what is read: a carriage return
at the end of a line counts as a blank, and a line that says nothing only moves the numbers of the
lines behind it. -/
namespace Emend

/-- What the number of a line becomes if a line is put in behind the first `k`. -/
def bump (k n : Nat) : Nat := if n ≤ k then n else n + 1

variable (f : Nat → Nat)

/-! Whatever holds the number of a line, with that number changed. -/

def Line.renumber (l : Line) : Line := { l with number := f l.number }

def LineError.renumber : LineError → LineError
  | .unreadable why => .unreadable why
  | .badSyntax n text => .badSyntax (f n) text

def Warning.renumber : Warning → Warning
  | .duplicate n typo => .duplicate (f n) typo
  | .short n typo least => .short (f n) typo least
  | .isWord n typo => .isWord (f n) typo
  | .firesOn n typo word => .firesOn (f n) typo word

def Rejection.renumber : Rejection → Rejection
  | .foreignCharacter n typo => .foreignCharacter (f n) typo
  | .substring n typo other => .substring (f n) typo other
  | .tooLong n typo => .tooLong (f n) typo

def Acceptance.renumber (v : Acceptance) : Acceptance :=
  { v with warnings := v.warnings.map (Warning.renumber f) }

def SourceError.renumber : SourceError → SourceError
  | .unopened path why => .unopened path why
  | .unreadable why => .unreadable why
  | .badSyntax n text => .badSyntax (f n) text
  | .invalid why => .invalid (why.renumber f)

def VettedDictionary.renumber (d : VettedDictionary) : VettedDictionary :=
  { d with warnings := d.warnings.map (Warning.renumber f) }

/-! Lines are accepted whatever their numbers are. -/

variable (words : WordList) (least : Nat)

theorem Acceptance.findings_renumber (l : Line) :
    findings words least (l.renumber f) = (findings words least l).map (Warning.renumber f) := by
  have hcollisions : (words.collisions l.typo).map (collisionWarning (f l.number) l.typo) =
      ((words.collisions l.typo).map (collisionWarning l.number l.typo)).map
        (Warning.renumber f) := by
    rw [List.map_map]
    apply List.map_congr_left
    intro c _
    cases c <;> rfl
  by_cases hshort : l.typo.length < least
  · simp [findings, Line.renumber, hshort, hcollisions, Warning.renumber]
  · simp [findings, Line.renumber, hshort, hcollisions]

theorem Acceptance.step_renumber (v : Acceptance) (l : Line) :
    (v.renumber f).step words least (l.renumber f) =
      mapBoth (Rejection.renumber f) (Acceptance.renumber f) (v.step words least l) := by
  have hfindings := findings_renumber f words least l
  have hseen : (v.renumber f).seen (l.renumber f).typo = v.seen l.typo := rfl
  have hoverlap : (v.renumber f).overlap? (l.renumber f).typo = v.overlap? l.typo := rfl
  have htypo : (l.renumber f).typo = l.typo := rfl
  simp only [step, hfindings, hseen, hoverlap]
  rw [htypo]
  split
  · rfl
  · split
    · rfl
    · split
      · rfl
      · split
        · rfl
        · simp [mapBoth, renumber, Line.renumber]

theorem Acceptance.run_renumber (v : Acceptance) (ls : List Line) :
    (v.renumber f).run words least (ls.map (Line.renumber f)) =
      mapBoth (Rejection.renumber f) (Acceptance.renumber f) (v.run words least ls) := by
  induction ls generalizing v with
  | nil => rfl
  | cons l ls ih =>
    rw [List.map_cons, run, run, step_renumber]
    cases v.step words least l with
    | error e => rfl
    | ok w => exact ih w

theorem accept_renumber (ls : List Line) : accept words least (ls.map (Line.renumber f)) =
    mapBoth (Rejection.renumber f) (fun r => (r.1, r.2.map (Warning.renumber f)))
      (accept words least ls) := by
  have hrun := Acceptance.run_renumber f words least .start ls
  have hstart : Acceptance.start.renumber f = .start := rfl
  rw [hstart] at hrun
  rw [accept, accept, hrun]
  cases Acceptance.start.run words least ls with
  | error e => rfl
  | ok v => simp [mapBoth, Acceptance.renumber]

/-! Lines are read whatever their numbers are. -/

namespace Line
variable {f : Nat → Nat} {number number' : Nat} {done : List Line} {bytes line source : List UInt8}
  {lines lines' front back : List (List UInt8)}

theorem parse_renumber (f : Nat → Nat) (number : Nat) (text : String) : parse (f number) text =
    mapBoth (LineError.renumber f) (Option.map (renumber f)) (parse number text) := by
  simp only [parse]
  split
  · rfl
  · split <;> rfl

theorem read_renumber (f : Nat → Nat) (number : Nat) (bytes : List UInt8) :
    read (f number) bytes =
      mapBoth (LineError.renumber f) (Option.map (renumber f)) (read number bytes) := by
  rw [read, read]
  cases Text.decodeLine bytes with
  | none => rfl
  | some text => exact parse_renumber f number text

/-- A step of the loop commutes with a change of the numbers if the rest of it does. -/
theorem parseFrom_cons_renumber (hnumber : f number = number') {rest rest' : List (List UInt8)}
    (hrest : ∀ done, parseFrom (number' + 1) (done.map (renumber f)) rest' =
      mapBoth (LineError.renumber f) (List.map (renumber f)) (parseFrom (number + 1) done rest)) :
    parseFrom number' (done.map (renumber f)) (bytes :: rest') =
      mapBoth (LineError.renumber f) (List.map (renumber f))
        (parseFrom number done (bytes :: rest)) := by
  rw [parseFrom_cons, parseFrom_cons, ← hnumber, read_renumber, hnumber]
  cases read number bytes with
  | error e => rfl
  | ok found =>
    have hfound : (found.map (renumber f)).toList ++ done.map (renumber f) =
        (found.toList ++ done).map (renumber f) := by
      cases found <;> rfl
    have h := hrest (found.toList ++ done)
    rw [← hfound] at h
    exact h

/-- Lines that move down keep what they say. -/
theorem parseFrom_renumber (hmove : ∀ i < lines.length, f (number + i) = number' + i) :
    parseFrom number' (done.map (renumber f)) lines =
      mapBoth (LineError.renumber f) (List.map (renumber f)) (parseFrom number done lines) := by
  induction lines generalizing number number' done with
  | nil => simp [parseFrom, mapBoth]
  | cons bytes lines ih =>
    apply parseFrom_cons_renumber (hmove 0 (Nat.succ_pos _))
    intro done
    apply ih
    intro i hi
    have hplace : number + 1 + i = number + (i + 1) := by omega
    rw [hplace, hmove (i + 1) (Nat.succ_lt_succ hi)]
    omega

/-- A line that says nothing moves the lines behind it by one. -/
theorem parseFrom_insert (done : List Line) (hsilent : ∀ n, read n line = .ok none)
    (hstay : ∀ i < front.length, f (number + i) = number + i)
    (hmove : ∀ i, f (number + front.length + i) = number + front.length + i + 1) :
    parseFrom number (done.map (renumber f)) (front ++ line :: back) =
      mapBoth (LineError.renumber f) (List.map (renumber f))
        (parseFrom number done (front ++ back)) := by
  -- The lines before it keep their places; behind it every line has moved down by one.
  induction front generalizing number done with
  | nil =>
    rw [List.nil_append, List.nil_append, parseFrom_cons, hsilent]
    apply parseFrom_renumber
    intro i _
    have hnext : f (number + i) = number + i + 1 := hmove i
    rw [hnext]
    omega
  | cons bytes front ih =>
    apply parseFrom_cons_renumber (hstay 0 (Nat.succ_pos _))
    intro done
    apply ih
    · intro i hi
      have hplace : number + 1 + i = number + (i + 1) := by omega
      rw [hplace, hstay (i + 1) (Nat.succ_lt_succ hi)]
    · intro i
      have hplace : number + 1 + front.length + i = number + (bytes :: front).length + i := by
        rw [List.length_cons]
        omega
      rw [hplace, hmove i]

/-- Lines at the end that say nothing can be left out. -/
theorem parseFrom_append (hsilent : ∀ bytes ∈ back, ∀ n, read n bytes = .ok none) :
    parseFrom number done (front ++ back) = parseFrom number done front := by
  induction front generalizing number done with
  | nil =>
    induction back generalizing number with
    | nil => rfl
    | cons bytes back ih =>
      obtain ⟨hbytes, hback⟩ := List.forall_mem_cons.mp hsilent
      rw [List.nil_append, parseFrom_cons, hbytes]
      exact ih hback
  | cons bytes front ih =>
    rw [List.cons_append, parseFrom_cons, parseFrom_cons]
    cases read number bytes with
    | error e => rfl
    | ok found => exact ih

/-- Lines that say the same can stand for each other. -/
theorem parseFrom_congr
    (h : List.Forall₂ (fun a b => ∀ n, read n b = read n a) lines lines') :
    parseFrom number done lines' = parseFrom number done lines := by
  induction h generalizing number done with
  | nil => rfl
  | cons hread _ ih =>
    rw [parseFrom_cons, parseFrom_cons, hread]
    split
    · rfl
    · exact ih

theorem parseAll_withReturns (source : List UInt8) :
    parseAll (Text.withReturns source) = parseAll source := by
  obtain ⟨lines, hcut, hsame⟩ := (Text.cut_splitLines source).withReturns
  rw [parseAll, parseAll, hcut.splitLines_eq]
  refine parseFrom_congr (hsame.imp fun a b h n => ?_)
  rcases h with rfl | rfl
  · rfl
  · exact read_return n a

/-! Lines that say nothing, put into a source. -/

theorem bump_of_le {k n : Nat} (h : n ≤ k) : bump k n = n := if_pos h

theorem bump_of_lt {k n : Nat} (h : k < n) : bump k n = n + 1 := if_neg (Nat.not_le_of_lt h)

theorem read_of_mem_splitLines (hsilent : Silent line) (hnew : Text.newline ∉ line)
    (h : bytes ∈ Text.splitLines line) (n : Nat) : read n bytes = .ok none := by
  by_cases hne : line = []
  · subst hne
    cases h
  · rw [Text.splitLines_last hne hnew, List.mem_singleton] at h
    rw [h]
    exact read_of_silent hsilent

theorem parseAll_insert {front back : List UInt8} (hstart : Text.AtLineStart front)
    (hnew : Text.newline ∉ line) (hsilent : Silent line) :
    parseAll (front ++ (line ++ Text.newline :: back)) =
      mapBoth (LineError.renumber (bump (front.count Text.newline)))
        (List.map (renumber (bump (front.count Text.newline)))) (parseAll (front ++ back)) := by
  rw [parseAll, parseAll, Text.splitLines_append hstart, Text.splitLines_append hstart,
    Text.splitLines_next hnew, ← Text.length_splitLines hstart]
  refine parseFrom_insert [] (fun n => ?_) (fun i hi => ?_) fun i => ?_
  · rw [read_dropReturn]
    exact read_of_silent hsilent
  · exact bump_of_le (by omega)
  · exact bump_of_lt (by omega)

theorem parseAll_append (hstart : Text.AtLineStart source) (hnew : Text.newline ∉ line)
    (hsilent : Silent line) : parseAll (source ++ line) = parseAll source := by
  rw [parseAll, parseAll, Text.splitLines_append hstart]
  exact parseFrom_append fun bytes h n => read_of_mem_splitLines hsilent hnew h n

/-- The last line may lack its newline, which it is given first. -/
theorem parseAll_append_next (source : List UInt8) (hnew : Text.newline ∉ line)
    (hsilent : Silent line) : parseAll (source ++ Text.newline :: line) = parseAll source := by
  -- A carriage return that ended the source goes with the newline, and was a blank before.
  obtain ⟨front, last, rfl, hstart, hlast⟩ := Text.exists_last_line source
  have hrest : ∀ bytes ∈ Text.splitLines line, ∀ n, read n bytes = .ok none := fun bytes h n =>
    read_of_mem_splitLines hsilent hnew h n
  rw [parseAll, parseAll, List.append_assoc, Text.splitLines_append hstart,
    Text.splitLines_append hstart, Text.splitLines_next hlast]
  by_cases hne : last = []
  · subst hne
    have hblank : Silent (Text.utf8 "") := .blank rfl
    have hempty : ∀ n, read n [] = .ok none := fun n => read_of_silent hblank
    rw [show Text.splitLines [] = [] from rfl, List.append_nil]
    exact parseFrom_append (List.forall_mem_cons.mpr ⟨hempty, hrest⟩)
  · rw [Text.splitLines_last hne hlast, List.append_cons, parseFrom_append hrest]
    refine parseFrom_congr (List.rel_append ?_ (.cons (fun n => ?_) .nil))
    · exact List.forall₂_same.mpr fun bytes _ n => rfl
    · exact read_dropReturn n last

end Line

/-! Dictionaries. -/

namespace VettedDictionary
variable {f : Nat → Nat} {words : WordList} {least : Nat} {source source' : List UInt8}

theorem ofBytes_congr (h : Line.parseAll source' = Line.parseAll source) (name : String) :
    ofBytes name source' words least = ofBytes name source words least := by
  rw [ofBytes, ofBytes, h]

theorem ofBytes_renumber (h : Line.parseAll source' =
      mapBoth (LineError.renumber f) (List.map (Line.renumber f)) (Line.parseAll source))
    (name : String) : ofBytes name source' words least =
      mapBoth (SourceError.renumber f) (renumber f) (ofBytes name source words least) := by
  rw [ofBytes, ofBytes, h]
  cases Line.parseAll source with
  | error e => cases e <;> rfl
  | ok ls =>
    have haccept := accept_renumber f words least ls
    simp only [mapBoth, haccept]
    cases accept words least ls with
    | error e => rfl
    | ok r => rfl

/-- Carriage returns before the newlines change nothing. A line of text that is blank or a comment,
put in where a line begins, moves the numbers of the lines behind it by one, in all warnings and
errors, and changes nothing else. At the end of the source there are no such lines, whether or not
it ends in a newline. -/
theorem ofBytes_insensitive (name : String) (source : List UInt8) (words : WordList)
    (least : Nat) :
    ofBytes name (Text.withReturns source) words least = ofBytes name source words least ∧
    ∀ line : String, '\n' ∉ line.toList →
      Text.trim line.toList = [] ∨ (Text.trim line.toList).head? = some '#' →
      (∀ front back, source = front ++ back → Text.AtLineStart front →
        ofBytes name (front ++ (Text.utf8 line ++ Text.newline :: back)) words least =
          mapBoth (SourceError.renumber (bump (front.count Text.newline)))
            (renumber (bump (front.count Text.newline))) (ofBytes name source words least)) ∧
      (Text.AtLineStart source →
        ofBytes name (source ++ Text.utf8 line) words least = ofBytes name source words least) ∧
      ofBytes name (source ++ Text.newline :: Text.utf8 line) words least =
        ofBytes name source words least := by
  refine ⟨ofBytes_congr (Line.parseAll_withReturns source) name, fun line hline hsays => ?_⟩
  have hnew := Text.newline_mem_utf8_iff.not.mpr hline
  have hsilent : Line.Silent (Text.utf8 line) := hsays.elim .blank .comment
  refine ⟨fun front back hsource hstart => ?_, fun hstart => ?_, ?_⟩
  · subst hsource
    exact ofBytes_renumber (Line.parseAll_insert hstart hnew hsilent) name
  · exact ofBytes_congr (Line.parseAll_append hstart hnew hsilent) name
  · exact ofBytes_congr (Line.parseAll_append_next source hnew hsilent) name

/-- A comment between two lines with the same typo. -/
theorem ofBytes_insensitive_hte :
    VettedDictionary.ofBytes "english" (Text.utf8 "hte -> the\nhte -> teh\n") .empty 0 =
      .ok ⟨⟨"english", [⟨"hte", "the"⟩]⟩, [.duplicate 2 "hte"]⟩ ∧
    VettedDictionary.ofBytes "english" (Text.utf8 "hte -> the\r\nhte -> teh\r\n") .empty 0 =
      .ok ⟨⟨"english", [⟨"hte", "the"⟩]⟩, [.duplicate 2 "hte"]⟩ ∧
    VettedDictionary.ofBytes "english" (Text.utf8 "hte -> the\n # note\nhte -> teh\n") .empty 0 =
      .ok ⟨⟨"english", [⟨"hte", "the"⟩]⟩, [.duplicate 3 "hte"]⟩ := by
  have hplain : VettedDictionary.ofBytes "english" (Text.utf8 "hte -> the\nhte -> teh\n") .empty 0 =
      .ok ⟨⟨"english", [⟨"hte", "the"⟩]⟩, [.duplicate 2 "hte"]⟩ := rfl
  obtain ⟨hreturns, hsilent⟩ := ofBytes_insensitive "english"
    (Text.utf8 "hte -> the\nhte -> teh\n") .empty 0
  obtain ⟨hinsert, -⟩ := hsilent " # note" (by decide) (Or.inr rfl)
  have hbetween := hinsert (Text.utf8 "hte -> the\n") (Text.utf8 "hte -> teh\n") rfl (Or.inr rfl)
  rw [hplain] at hreturns hbetween
  exact ⟨hplain, hreturns, hbetween⟩

end VettedDictionary
end Emend
