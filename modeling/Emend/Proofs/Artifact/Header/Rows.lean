import Emend.Proofs.Artifact.Header.Comment
import Emend.Proofs.Artifact.Header.Definitions
import Mathlib.Data.List.Induction

/-! The lines of the data array. A line is broken where its columns run out, and that is behind
every sixteenth byte. -/
namespace Emend.Artifact.Header

/-- How many bytes a full line holds. -/
def perRow : Nat := 16

/-- Bytes cut into rows; the last one may be shorter. -/
def rows (bs : List UInt8) : List (List UInt8) :=
  if bs = [] then [] else bs.take perRow :: rows (bs.drop perRow)
termination_by bs.length
decreasing_by
  rw [List.length_drop, perRow]
  have hpos := List.length_pos_iff.mpr ‹bs ≠ []›
  omega

/-- The numbers of a row, indented and with commas between them. -/
def rowText (row : List UInt8) : String := indent ++ String.intercalate ", " (row.map hexWord)

/-- The lines that rows are written on. A comma ends each but the last. -/
def rowLines : List (List UInt8) → List String
  | [] => []
  | [row] => [rowText row]
  | row :: next :: rest => (rowText row ++ ",") :: rowLines (next :: rest)

/-- What follows a byte on its line, `rest` being the bytes behind it. -/
def commaBefore (rest : List UInt8) : String := if rest.isEmpty then "" else ","

variable {bs row rest : List UInt8} {rs : List (List UInt8)} {b : UInt8} {out line : String}

/-! Cutting. -/

theorem rows_nil : rows [] = [] := by rw [rows, if_pos rfl]

theorem rows_of_ne_nil (h : bs ≠ []) : rows bs = bs.take perRow :: rows (bs.drop perRow) := by
  rw [rows, if_neg h]

theorem rows_ne_nil (h : bs ≠ []) : rows bs ≠ [] := by
  rw [rows_of_ne_nil h]
  exact List.cons_ne_nil _ _

theorem length_singleton_le (b : UInt8) : [b].length ≤ perRow := Nat.succ_le_succ (Nat.zero_le 15)

theorem rows_append (hfull : row.length = perRow) : rows (row ++ bs) = row :: rows bs := by
  have hne : row ++ bs ≠ [] := by
    intro hnil
    rw [(List.append_eq_nil_iff.mp hnil).1] at hfull
    cases hfull
  rw [rows_of_ne_nil hne, List.take_left' hfull, List.drop_left' hfull]

theorem rows_of_length_le (hne : row ≠ []) (hle : row.length ≤ perRow) : rows row = [row] := by
  rw [rows_of_ne_nil hne, List.take_of_length_le hle, List.drop_of_length_le hle, rows_nil]

theorem flatten_rows (bs : List UInt8) : (rows bs).flatten = bs := by
  induction bs using rows.induct with
  | case1 => rw [rows_nil, List.flatten_nil]
  | case2 bs hne ih => rw [rows_of_ne_nil hne, List.flatten_cons, ih, List.take_append_drop]

theorem length_of_mem_rows (h : row ∈ rows bs) : row ≠ [] ∧ row.length ≤ perRow := by
  induction bs using rows.induct with
  | case1 =>
    rw [rows_nil] at h
    cases h
  | case2 bs hne ih =>
    rw [rows_of_ne_nil hne] at h
    rcases List.mem_cons.mp h with rfl | h
    · refine ⟨fun hnil => ?_, List.length_take_le _ _⟩
      rcases List.take_eq_nil_iff.mp hnil with hzero | hnil
      · cases hzero
      · exact hne hnil
    · exact ih h

theorem length_of_mem_dropLast_rows (h : row ∈ (rows bs).dropLast) : row.length = perRow := by
  induction bs using rows.induct with
  | case1 =>
    rw [rows_nil] at h
    cases h
  | case2 bs hne ih =>
    rw [rows_of_ne_nil hne] at h
    by_cases hdrop : bs.drop perRow = []
    · rw [hdrop, rows_nil] at h
      cases h
    · rw [List.dropLast_cons_of_ne_nil (rows_ne_nil hdrop)] at h
      rcases List.mem_cons.mp h with rfl | h
      · have hlt := List.length_pos_iff.mpr hdrop
        rw [List.length_drop] at hlt
        rw [List.length_take]
        omega
      · exact ih h

/-! Writing. -/

theorem token_eq (b : UInt8) (rest : List UInt8) :
    token b rest.isEmpty = hexWord b ++ commaBefore rest := by
  cases rest with
  | nil => exact String.append_empty.symm
  | cons c rest => rfl

theorem length_hexWord (b : UInt8) : (hexWord b).length = 4 := by
  rw [← String.length_toList, toList_hexWord]
  rfl

theorem rowText_singleton (b : UInt8) : rowText [b] = indent ++ hexWord b := by
  rw [rowText, List.map_singleton, String.intercalate_singleton]

theorem rowText_append (hne : row ≠ []) (b : UInt8) :
    rowText (row ++ [b]) = rowText row ++ ", " ++ hexWord b := by
  have hmap : row.map hexWord ≠ [] := fun hnil => hne (List.map_eq_nil_iff.mp hnil)
  rw [rowText, rowText, List.map_append, List.map_singleton,
    String.intercalate_append_of_ne_nil hmap (List.cons_ne_nil _ _), String.intercalate_singleton]
  simp only [String.append_assoc]

/-- A byte takes six columns with its comma and its blank, and the indent four. -/
theorem length_rowText (hne : row ≠ []) : (rowText row).length = 6 * row.length + 2 := by
  induction row using List.reverseRecOn with
  | nil => exact (hne rfl).elim
  | append_singleton row b ih =>
    by_cases hrow : row = []
    · subst hrow
      rw [List.nil_append, rowText_singleton, String.length_append, length_hexWord]
      rfl
    · rw [rowText_append hrow, String.length_append, String.length_append, ih hrow, length_hexWord,
        List.length_append, List.length_singleton, show ", ".length = 2 from rfl]
      omega

theorem length_commaBefore_le (rest : List UInt8) : (commaBefore rest).length ≤ 1 := by
  unfold commaBefore
  split <;> decide

theorem rowLines_cons (h : rs ≠ []) :
    rowLines (row :: rs) = (rowText row ++ ",") :: rowLines rs := by
  cases rs with
  | nil => exact (h rfl).elim
  | cons next rest => rfl

theorem rowLines_ne_nil (h : rs ≠ []) : rowLines rs ≠ [] := by
  obtain ⟨row, rest, rfl⟩ := List.exists_cons_of_ne_nil h
  cases rest <;> exact List.cons_ne_nil _ _

theorem mem_rowLines (h : line ∈ rowLines rs) :
    ∃ row ∈ rs, line = rowText row ∨ line = rowText row ++ "," := by
  induction rs with
  | nil => cases h
  | cons row rs ih =>
    by_cases hrs : rs = []
    · subst hrs
      exact ⟨row, List.mem_cons_self, Or.inl (List.mem_singleton.mp h)⟩
    · rw [rowLines_cons hrs] at h
      rcases List.mem_cons.mp h with rfl | h
      · exact ⟨row, List.mem_cons_self, Or.inr rfl⟩
      · obtain ⟨other, hother, hline⟩ := ih h
        exact ⟨other, List.mem_cons_of_mem row hother, hline⟩

/-- One more byte fits on the line as long as the line does not hold sixteen. -/
theorem fits_iff (hne : row ≠ []) (b : UInt8) (rest : List UInt8) :
    (rowText row ++ ",").length + 1 + (hexWord b ++ commaBefore rest).length ≤ columns ↔
      row.length < perRow := by
  have hcomma := length_commaBefore_le rest
  rw [String.length_append, String.length_append, length_rowText hne, length_hexWord, columns,
    perRow, show ",".length = 1 from rfl]
  omega

/-- The line that is being filled holds the bytes `row`, the last of them with what follows it. -/
theorem wrapFrom_rows (hne : row ≠ []) (hle : row.length ≤ perRow) :
    wrapFrom out (rowText row ++ commaBefore rest) rest =
      out ++ String.intercalate "\n" (rowLines (rows (row ++ rest))) := by
  induction rest generalizing out row with
  | nil =>
    rw [wrapFrom, List.append_nil, rows_of_length_le hne hle, rowLines,
      String.intercalate_singleton]
    exact congrArg (out ++ ·) String.append_empty
  | cons b rest ih =>
    have hcomma : commaBefore (b :: rest) = "," := rfl
    rw [wrapFrom, token_eq, hcomma]
    by_cases hroom : row.length < perRow
    · have hline : rowText row ++ "," ++ " " ++ (hexWord b ++ commaBefore rest) =
          rowText (row ++ [b]) ++ commaBefore rest := by
        rw [rowText_append hne, show ", " = "," ++ " " from rfl]
        simp only [String.append_assoc]
      have hle' : (row ++ [b]).length ≤ perRow := by
        rw [List.length_append, List.length_singleton]
        omega
      rw [if_pos ((fits_iff hne b rest).mpr hroom), hline, ih (by simp) hle', List.append_assoc,
        List.singleton_append]
    · have hfull : row.length = perRow := Nat.le_antisymm hle (Nat.le_of_not_lt hroom)
      have hline : indent ++ (hexWord b ++ commaBefore rest) =
          rowText [b] ++ commaBefore rest := by
        rw [rowText_singleton, String.append_assoc]
      have hrest : rows (b :: rest) ≠ [] := rows_ne_nil (List.cons_ne_nil _ _)
      rw [if_neg fun hfits => hroom ((fits_iff hne b rest).mp hfits), hline,
        ih (List.cons_ne_nil _ _) (length_singleton_le b), List.singleton_append,
        rows_append hfull, rowLines_cons hrest,
        String.intercalate_cons_of_ne_nil (rowLines_ne_nil hrest)]
      simp only [String.append_assoc]

theorem wrap_eq (bs : List UInt8) : wrap bs = String.intercalate "\n" (rowLines (rows bs)) := by
  cases bs with
  | nil => rw [rows_nil, rowLines, String.intercalate_nil, wrap]
  | cons b rest =>
    rw [wrap, token_eq, ← String.append_assoc, ← rowText_singleton,
      wrapFrom_rows (List.cons_ne_nil _ _) (length_singleton_le b), String.empty_append,
      List.singleton_append]

/-! Reading lines off the text. -/

theorem newline_not_mem_hexWord (b : UInt8) : '\n' ∉ (hexWord b).toList := by
  intro hmem
  have hword := (isWord_hexWord b).2 '\n' hmem
  exact absurd hword (by decide)

theorem newline_not_mem_rowText (row : List UInt8) : '\n' ∉ (rowText row).toList := by
  induction row using List.reverseRecOn with
  | nil => decide
  | append_singleton row b ih =>
    by_cases hrow : row = []
    · subst hrow
      rw [List.nil_append, rowText_singleton, String.toList_append, List.mem_append, not_or]
      exact ⟨by decide, newline_not_mem_hexWord b⟩
    · rw [rowText_append hrow, String.toList_append, String.toList_append, List.mem_append,
        List.mem_append, not_or, not_or]
      exact ⟨⟨ih, by decide⟩, newline_not_mem_hexWord b⟩

theorem newline_not_mem_rowLines (h : line ∈ rowLines rs) : '\n' ∉ line.toList := by
  obtain ⟨row, -, rfl | rfl⟩ := mem_rowLines h
  · exact newline_not_mem_rowText row
  · rw [String.toList_append, List.mem_append, not_or]
    exact ⟨newline_not_mem_rowText row, by decide⟩

/-- A line with sixteen bytes and a comma has ninety-nine columns. -/
theorem length_le_of_mem_rowLines (h : line ∈ rowLines (rows bs)) : line.length ≤ columns := by
  obtain ⟨row, hrow, hline⟩ := mem_rowLines h
  obtain ⟨hne, hle⟩ := length_of_mem_rows hrow
  have hlength := length_rowText hne
  rw [perRow] at hle
  rw [columns]
  rcases hline with rfl | rfl
  · omega
  · rw [String.length_append, show ",".length = 1 from rfl]
    omega

theorem linesOf_intercalate {lines : List String} (hne : lines ≠ [])
    (h : ∀ line ∈ lines, '\n' ∉ line.toList) :
    linesOf (String.intercalate "\n" lines) = lines := by
  induction lines with
  | nil => exact (hne rfl).elim
  | cons line lines ih =>
    obtain ⟨hline, hlines⟩ := List.forall_mem_cons.mp h
    by_cases hlast : lines = []
    · subst hlast
      rw [String.intercalate_singleton, linesOf_of_not_mem hline]
    · rw [String.intercalate_cons_of_ne_nil hlast, linesOf_newline, linesOf_of_not_mem hline,
        ih hlast hlines, List.singleton_append]

theorem linesOf_wrap (h : bs ≠ []) : linesOf (wrap bs) = rowLines (rows bs) := by
  rw [wrap_eq]
  exact linesOf_intercalate (rowLines_ne_nil (rows_ne_nil h)) fun _ => newline_not_mem_rowLines

/-- Lines filled up to a hundred columns are the bytes in rows of sixteen, each row on a line of its
own. No line is wider, and each byte stands in one row, as two digits. Without bytes there is no
text. -/
theorem wrap_rows (bs : List UInt8) :
    wrap bs = String.intercalate "\n" (rowLines (rows bs)) ∧
    (rows bs).flatten = bs ∧
    (∀ row ∈ (rows bs).dropLast, row.length = 16) ∧
    (∀ row ∈ rows bs, row ≠ [] ∧ row.length ≤ 16) ∧
    (∀ b, ∃ high low, (hexWord b).toList = ['0', 'x', high, low] ∧
      hexValue? high = some (b.toNat / 16) ∧ hexValue? low = some (b.toNat % 16)) ∧
    (bs ≠ [] → linesOf (wrap bs) = rowLines (rows bs)) ∧
    (∀ line ∈ linesOf (wrap bs), line.length ≤ 100) ∧
    wrap [] = "" := by
  refine ⟨wrap_eq bs, flatten_rows bs, fun row => length_of_mem_dropLast_rows,
    fun row => length_of_mem_rows, fun b => ?_, linesOf_wrap, fun line hline => ?_, rfl⟩
  · obtain ⟨hhigh, hlow, -⟩ := toNat_div_mod b
    exact ⟨_, _, toList_hexWord b, (hexDigit_spec hhigh).2, (hexDigit_spec hlow).2⟩
  · by_cases hbs : bs = []
    · subst hbs
      rw [List.mem_singleton.mp (show line ∈ [""] from hline)]
      decide
    · rw [linesOf_wrap hbs] at hline
      exact length_le_of_mem_rowLines hline

/-- The last of seventeen bytes goes on a line of its own, and the comma stays behind. -/
theorem wrap_rows_seventeen :
    linesOf (wrap (List.replicate 17 0xAB)) =
      [rowText (List.replicate 16 0xAB) ++ ",", "    0xAB"] ∧
    (rowText (List.replicate 16 0xAB) ++ ",").length ≤ 100 ∧
    List.replicate 16 0xAB ∈ (rows (List.replicate 17 0xAB)).dropLast ∧
    (List.replicate 16 (0xAB : UInt8)).length = 16 ∧
    [0xAB] ∈ rows (List.replicate 17 0xAB) ∧ [(0xAB : UInt8)] ≠ [] := by
  obtain ⟨-, -, hfull, hrow, -, hlines, hwidth, -⟩ := wrap_rows (List.replicate 17 0xAB)
  have hrows : rows (List.replicate 17 0xAB) = [List.replicate 16 0xAB, [0xAB]] := by
    rw [show List.replicate 17 (0xAB : UInt8) = List.replicate 16 0xAB ++ [0xAB] from rfl,
      rows_append rfl, rows_of_length_le (List.cons_ne_nil _ _) (length_singleton_le _)]
  have htext := hlines (List.cons_ne_nil _ _)
  rw [htext] at hwidth ⊢
  rw [hrows] at hfull hrow hwidth ⊢
  exact ⟨by rw [rowLines, rowLines, rowText_singleton]; decide +kernel,
    hwidth _ List.mem_cons_self, List.mem_cons_self, hfull _ List.mem_cons_self,
    List.mem_cons_of_mem _ List.mem_cons_self, (hrow [0xAB] (by simp)).1⟩

end Emend.Artifact.Header
