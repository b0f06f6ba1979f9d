import Emend.Proofs.Text.Encoding
import Mathlib.Data.List.Forall2
import Mathlib.Data.List.Induction

/-! The lines of a source. Each newline ends a line, and a carriage return before it goes with it;
what comes after the last newline is a line too, if there is anything. -/
namespace Emend.Text

def newline : UInt8 := 0x0A

def carriageReturn : UInt8 := 0x0D

/-- The line without a carriage return at its end. -/
def dropReturn (line : List UInt8) : List UInt8 :=
  if line.getLast? = some carriageReturn then line.dropLast else line

/-- `lines` are the lines of `source`. -/
inductive Cut : List UInt8 → List (List UInt8) → Prop
  | nothing : Cut [] []
  | last {line : List UInt8} (hne : line ≠ []) (hline : newline ∉ line) : Cut line [line]
  | next {line rest : List UInt8} {lines : List (List UInt8)} (hline : newline ∉ line)
      (hrest : Cut rest lines) : Cut (line ++ newline :: rest) (dropReturn line :: lines)

variable {source front back line rest : List UInt8} {lines lines' done : List (List UInt8)}

theorem dropReturn_concat (line : List UInt8) : dropReturn (line ++ [carriageReturn]) = line := by
  simp [dropReturn]

theorem dropReturn_cases (line : List UInt8) :
    line = dropReturn line ∨ line = dropReturn line ++ [carriageReturn] := by
  by_cases h : line.getLast? = some carriageReturn
  · right
    obtain ⟨ds, rfl⟩ := List.getLast?_eq_some_iff.mp h
    rw [dropReturn_concat]
  · left
    rw [dropReturn, if_neg h]

theorem closeLine_eq (reversed : List UInt8) :
    closeLine reversed = dropReturn reversed.reverse := by
  cases reversed with
  | nil => rfl
  | cons b bs =>
    by_cases hb : b = carriageReturn
    · subst hb
      rw [List.reverse_cons, dropReturn_concat]
      rfl
    · have hother : closeLine (b :: bs) = (b :: bs).reverse := by
        unfold closeLine
        split
        next h =>
          exact absurd (List.cons.inj h).1 hb
        next => rfl
      simp [hother, dropReturn, hb]

theorem newline_mem_utf8_iff {s : String} : newline ∈ utf8 s ↔ '\n' ∈ s.toList := by
  constructor
  · intro h
    obtain ⟨c, hc, hval⟩ := exists_of_mem_utf8 (by decide) h
    have hnewline : c = '\n' := Char.toNat_inj.mp hval
    exact hnewline ▸ hc
  · intro h
    exact mem_utf8_of_mem h (by decide)

/-! The loop that splits bytes into lines. -/

theorem splitLinesOnto_line (h : newline ∉ line) (done : List (List UInt8))
    (current rest : List UInt8) : splitLinesOnto done current (line ++ rest) =
      splitLinesOnto done (line.reverse ++ current) rest := by
  induction line generalizing current with
  | nil => rfl
  | cons b line ih =>
    obtain ⟨hb, hline⟩ := List.ne_and_not_mem_of_not_mem_cons h
    have hstep : splitLinesOnto done current (b :: (line ++ rest)) =
        splitLinesOnto done (b :: current) (line ++ rest) := if_neg hb.symm
    rw [List.cons_append, hstep, ih hline]
    simp

theorem splitLinesOnto_done (done : List (List UInt8)) (current source : List UInt8) :
    splitLinesOnto done current source = done.reverse ++ splitLinesOnto [] current source := by
  induction source generalizing done current with
  | nil => cases current <;> simp [splitLinesOnto]
  | cons b source ih =>
    rw [splitLinesOnto, splitLinesOnto]
    split
    · rw [ih (closeLine current :: done), ih [closeLine current]]
      simp
    · exact ih done (b :: current)

theorem splitLines_last (hne : line ≠ []) (h : newline ∉ line) : splitLines line = [line] := by
  have hloop := splitLinesOnto_line h [] [] []
  rw [List.append_nil] at hloop
  rw [splitLines, hloop]
  simp [splitLinesOnto, hne]

theorem splitLines_next (h : newline ∉ line) (rest : List UInt8) :
    splitLines (line ++ newline :: rest) = dropReturn line :: splitLines rest := by
  have hclose : closeLine line.reverse = dropReturn line := by
    rw [closeLine_eq, List.reverse_reverse]
  have hstep : splitLinesOnto [] (line.reverse ++ []) (newline :: rest) =
      splitLinesOnto [closeLine (line.reverse ++ [])] [] rest := if_pos rfl
  rw [splitLines, splitLinesOnto_line h, hstep, splitLinesOnto_done, List.append_nil, hclose]
  rfl

theorem exists_cut (source : List UInt8) : ∃ lines, Cut source lines := by
  induction source with
  | nil => exact ⟨[], .nothing⟩
  | cons b source ih =>
    obtain ⟨lines, h⟩ := ih
    by_cases hb : b = newline
    · subst hb
      have hempty : newline ∉ ([] : List UInt8) := List.not_mem_nil
      exact ⟨_, .next hempty h⟩
    · have hcons : ∀ line : List UInt8, newline ∉ line → newline ∉ b :: line := by
        intro line hline
        exact List.not_mem_cons_of_ne_of_not_mem (Ne.symm hb) hline
      cases h with
      | nothing => exact ⟨_, .last (List.cons_ne_nil b []) (hcons [] List.not_mem_nil)⟩
      | last hne hline => exact ⟨_, .last (List.cons_ne_nil b _) (hcons _ hline)⟩
      | next hline hrest => exact ⟨_, .next (hcons _ hline) hrest⟩

theorem Cut.splitLines_eq (h : Cut source lines) : splitLines source = lines := by
  induction h with
  | nothing => rfl
  | last hne hline => exact splitLines_last hne hline
  | next hline hrest ih => rw [splitLines_next hline, ih]

theorem cut_iff : Cut source lines ↔ lines = splitLines source := by
  constructor
  · intro h
    exact h.splitLines_eq.symm
  · rintro rfl
    obtain ⟨lines, h⟩ := exists_cut source
    rwa [h.splitLines_eq]

theorem cut_splitLines (source : List UInt8) : Cut source (splitLines source) := cut_iff.mpr rfl

theorem Cut.newline_not_mem (h : Cut source lines) : ∀ line ∈ lines, newline ∉ line := by
  induction h with
  | nothing => exact List.forall_mem_nil _
  | last hne hline => exact List.forall_mem_singleton.mpr hline
  | @next line rest lines hline hrest ih =>
    refine List.forall_mem_cons.mpr ⟨fun hmem => hline ?_, ih⟩
    rcases dropReturn_cases line with h | h
    · exact h ▸ hmem
    · exact h ▸ List.mem_append_left _ hmem

/-! Sources one after the other. -/

/-- A new line begins behind the source. -/
def AtLineStart (source : List UInt8) : Prop := source = [] ∨ source.getLast? = some newline

theorem AtLineStart.eq_nil (h : AtLineStart line) (hline : newline ∉ line) : line = [] := by
  rcases h with h | h
  · exact h
  · exact absurd (List.mem_of_getLast? h) hline

theorem AtLineStart.tail (h : AtLineStart (line ++ newline :: rest)) : AtLineStart rest := by
  by_cases hne : rest = []
  · exact Or.inl hne
  · rcases h with h | h
    · simp at h
    · right
      rwa [List.getLast?_append_of_ne_nil _ (List.cons_ne_nil newline rest),
        List.getLast?_cons_of_ne_nil hne] at h

theorem Cut.append (hfront : Cut front lines) (hstart : AtLineStart front)
    (hback : Cut back lines') : Cut (front ++ back) (lines ++ lines') := by
  induction hfront with
  | nothing => exact hback
  | last hne hline => exact absurd (hstart.eq_nil hline) hne
  | next hline hrest ih =>
    rw [List.append_assoc]
    exact .next hline (ih hstart.tail)

theorem splitLines_append (h : AtLineStart front) (back : List UInt8) :
    splitLines (front ++ back) = splitLines front ++ splitLines back :=
  ((cut_splitLines front).append h (cut_splitLines back)).splitLines_eq

/-- Each newline ends one line. -/
theorem length_splitLines (h : AtLineStart front) :
    (splitLines front).length = front.count newline := by
  have hcut := cut_splitLines front
  generalize splitLines front = lines at hcut
  induction hcut with
  | nothing => rfl
  | last hne hline => exact absurd (h.eq_nil hline) hne
  | next hline hrest ih =>
    rw [List.length_cons, ih h.tail, List.count_append, List.count_eq_zero.mpr hline]
    simp

/-- Every source is made of whole lines and one that lacks its newline. -/
theorem exists_last_line (source : List UInt8) :
    ∃ front last, source = front ++ last ∧ AtLineStart front ∧ newline ∉ last := by
  induction source using List.reverseRecOn with
  | nil => exact ⟨[], [], rfl, Or.inl rfl, List.not_mem_nil⟩
  | append_singleton source b ih =>
    obtain ⟨front, last, rfl, hstart, hlast⟩ := ih
    by_cases hb : b = newline
    · subst hb
      exact ⟨front ++ last ++ [newline], [], by simp, Or.inr (by simp), List.not_mem_nil⟩
    · refine ⟨front, last ++ [b], List.append_assoc .., hstart, ?_⟩
      simp only [List.mem_append, List.mem_singleton, not_or]
      exact ⟨hlast, Ne.symm hb⟩

/-! Line ends of two bytes. -/

/-- The source with a carriage return before each newline. -/
def withReturns (source : List UInt8) : List UInt8 :=
  source.flatMap fun b => if b = newline then [carriageReturn, newline] else [b]

theorem withReturns_line (h : newline ∉ line) : withReturns line = line := by
  induction line with
  | nil => rfl
  | cons b line ih =>
    obtain ⟨hb, hline⟩ := List.ne_and_not_mem_of_not_mem_cons h
    have hrest := ih hline
    unfold withReturns at hrest ⊢
    rw [List.flatMap_cons, if_neg hb.symm, hrest]
    rfl

theorem withReturns_next (h : newline ∉ line) (rest : List UInt8) :
    withReturns (line ++ newline :: rest) =
      (line ++ [carriageReturn]) ++ newline :: withReturns rest := by
  have hline := withReturns_line h
  unfold withReturns at hline ⊢
  rw [List.flatMap_append, hline]
  simp

/-- The lines stay as they are, but those that ended in a carriage return before a newline keep
it. -/
theorem Cut.withReturns (h : Cut source lines) : ∃ lines', Cut (withReturns source) lines' ∧
    List.Forall₂ (fun a b => b = a ∨ b = a ++ [carriageReturn]) lines lines' := by
  induction h with
  | nothing => exact ⟨[], .nothing, .nil⟩
  | last hne hline =>
    rw [withReturns_line hline]
    exact ⟨_, .last hne hline, .cons (Or.inl rfl) .nil⟩
  | @next line rest lines hline hrest ih =>
    obtain ⟨lines', hcut, hsame⟩ := ih
    have hnot : newline ∉ line ++ [carriageReturn] := by
      simp only [List.mem_append, List.mem_singleton, not_or]
      exact ⟨hline, by decide⟩
    have hnext := Cut.next hnot hcut
    rw [dropReturn_concat] at hnext
    rw [withReturns_next hline]
    exact ⟨_, hnext, .cons (dropReturn_cases line) hsame⟩

end Emend.Text
