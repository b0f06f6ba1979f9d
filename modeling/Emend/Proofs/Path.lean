import Emend.Path
import Mathlib.Data.List.DropRight

/-! The parts of a path. A name that is joined to the parent of a path stands in it where the last
part stood; empty parts before that one are left out. -/
namespace Emend.Path

variable {p : Path} {cs file name : List Char} {parts front inner : List (List Char)}
  {part first : List Char} {rest : List (List Char)}

/-! Splitting and joining. -/

theorem split_eq_splitOn (cs : List Char) : split cs = cs.splitOn '/' := by
  suffices h : ∀ current, splitFrom current cs = cs.splitOnPPrepend (· == '/') current from h []
  induction cs with
  | nil => exact fun _ => rfl
  | cons c cs ih =>
    intro current
    simp only [splitFrom, List.splitOnPPrepend, ih, beq_iff_eq]

theorem joinParts_eq_intercalate (parts : List (List Char)) :
    joinParts parts = ['/'].intercalate parts := by
  induction parts with
  | nil => rfl
  | cons part parts ih =>
    cases parts with
    | nil => rw [joinParts, List.intercalate_singleton]
    | cons next parts =>
      rw [joinParts, ih, List.intercalate_cons_cons, List.append_assoc]
      · rfl
      · exact List.cons_ne_nil _ _

theorem split_ne_nil (cs : List Char) : split cs ≠ [] := by
  rw [split_eq_splitOn]
  exact List.splitOn_ne_nil '/' cs

theorem split_of_not_mem (h : '/' ∉ cs) : split cs = [cs] := by
  rw [split_eq_splitOn, List.splitOn_eq_singleton h]

theorem split_append (cs ds : List Char) : split (cs ++ '/' :: ds) = split cs ++ split ds := by
  simp only [split_eq_splitOn, List.splitOn_append_cons_self]

theorem split_slash (cs : List Char) : split ('/' :: cs) = [] :: split cs := split_append [] cs

theorem not_mem_of_mem_split (h : part ∈ split cs) : '/' ∉ part := by
  have hfrom : ∀ current, '/' ∉ current → part ∈ splitFrom current cs → '/' ∉ part := by
    clear h
    induction cs with
    | nil =>
      intro current hcurrent hmem
      rw [List.mem_singleton.mp hmem, List.mem_reverse]
      exact hcurrent
    | cons c cs ih =>
      intro current hcurrent hmem
      rw [splitFrom] at hmem
      split at hmem
      next =>
        obtain rfl | hmem := List.mem_cons.mp hmem
        · rwa [List.mem_reverse]
        · exact ih [] List.not_mem_nil hmem
      next hc => exact ih _ (List.not_mem_cons_of_ne_of_not_mem (Ne.symm hc) hcurrent) hmem
  exact hfrom [] List.not_mem_nil h

theorem joinParts_cons (hne : parts ≠ []) :
    joinParts (part :: parts) = part ++ '/' :: joinParts parts := by
  cases parts with
  | nil => exact (hne rfl).elim
  | cons next parts => rfl

theorem joinParts_split (cs : List Char) : joinParts (split cs) = cs := by
  rw [split_eq_splitOn, joinParts_eq_intercalate, List.intercalate_splitOn]

theorem split_joinParts (hne : parts ≠ []) (h : ∀ part ∈ parts, '/' ∉ part) :
    split (joinParts parts) = parts := by
  rw [split_eq_splitOn, joinParts_eq_intercalate, List.splitOn_intercalate '/' h hne]

/-- A path begins with a slash if it has an empty part before others. -/
theorem head?_eq_slash :
    cs.head? = some '/' ↔ (split cs).head? = some [] ∧ 1 < (split cs).length := by
  cases cs with
  | nil => decide
  | cons c cs =>
    by_cases hc : c = '/'
    · subst hc
      have hpos := List.length_pos_iff.mpr (split_ne_nil cs)
      simpa [split_slash] using hpos
    · obtain ⟨first, rest, hsplit⟩ := List.exists_cons_of_ne_nil (split_ne_nil cs)
      rw [split_eq_splitOn] at hsplit
      simp [split_eq_splitOn, List.splitOn_cons_eq_if_modifyHead, hc, hsplit]

/-! The start of a path. -/

/-- How the parts before the last are divided between the start of a path and its body. -/
inductive Divided : List Char → List (List Char) → List (List Char) → Prop
  | root (inner : List (List Char)) : Divided ['/'] ([] :: inner) inner
  | dot (rest : List (List Char)) : Divided ['.'] (['.'] :: rest) ([] :: rest)
  | none : Divided [] [] []
  | named {first : List Char} (rest : List (List Char)) (named : isEmptyPart first = false) :
      Divided [] (first :: rest) (first :: rest)

theorem isEmptyPart_eq_false : isEmptyPart part = false ↔ part ≠ [] ∧ part ≠ ['.'] := by
  simp [isEmptyPart]

/-- After a slash there is the last part at least. -/
theorem exists_rest (h : first :: split cs = front ++ [file]) :
    ∃ rest, front = first :: rest ∧ split cs = rest ++ [file] := by
  cases front with
  | nil => exact (split_ne_nil cs (List.cons.inj h).2).elim
  | cons first' rest =>
    obtain ⟨rfl, hsplit⟩ := List.cons.inj h
    exact ⟨rest, rfl, hsplit⟩

theorem exists_divided (h : split cs = front ++ [file]) (hfile : isEmptyPart file = false) :
    ∃ inner, split (splitStart cs).2 = inner ++ [file] ∧ Divided (splitStart cs).1 front inner := by
  fun_cases splitStart cs with
  | case1 body =>
    rw [split_slash] at h
    obtain ⟨rest, rfl, hsplit⟩ := exists_rest h
    exact ⟨rest, hsplit, .root rest⟩
  | case2 =>
    have hlast : some ['.'] = some file := (congrArg List.getLast? h).trans List.getLast?_concat
    exact ((isEmptyPart_eq_false.mp hfile).2 (Option.some.inj hlast).symm).elim
  | case3 body =>
    have hcons : split ('.' :: '/' :: body) = ['.'] :: split body := split_append ['.'] body
    rw [hcons] at h
    obtain ⟨rest, rfl, hsplit⟩ := exists_rest h
    refine ⟨[] :: rest, ?_, .dot rest⟩
    rw [split_slash, hsplit, List.cons_append]
  | case4 _ hroot _ hdot =>
    cases front with
    | nil => exact ⟨[], h, .none⟩
    | cons first rest =>
      have hcs : cs = first ++ '/' :: joinParts (rest ++ [file]) := by
        rw [← joinParts_split cs, h, List.cons_append, joinParts_cons (List.concat_ne_nil _ _)]
      refine ⟨first :: rest, h, .named rest (isEmptyPart_eq_false.mpr ⟨?_, ?_⟩)⟩
      · rintro rfl
        exact hroot _ hcs
      · rintro rfl
        exact hdot _ hcs

/-! What is made of the last part. -/

theorem stepsBack_concat (hfile : isEmptyPart file = false) :
    stepsBack (inner ++ [file]).reverse = file :: inner.reverse := by
  rw [stepsBack, List.reverse_concat, List.dropWhile_cons_of_neg (by simp [hfile])]

theorem fileName?_eq (h : split p.text.toList = front ++ [file]) (hfile : isEmptyPart file = false)
    (hdots : file ≠ ['.', '.']) : p.fileName? = some file := by
  obtain ⟨inner, hinner, -⟩ := exists_divided h hfile
  rw [fileName?, hinner, stepsBack_concat hfile]
  exact if_neg hdots

theorem parent?_eq (h : split (splitStart p.text.toList).2 = inner ++ [file])
    (hfile : isEmptyPart file = false) : p.parent? = some ⟨String.ofList
      ((splitStart p.text.toList).1 ++ joinParts (inner.rdropWhile isEmptyPart))⟩ := by
  simp only [parent?, h, stepsBack_concat hfile]
  rfl

/-- An extension is what stands behind the last dot of a name that does not begin with this dot. -/
theorem extension?_eq_some {ext : String} (h : p.fileName? = some name) :
    p.extension? = some ext ↔
      '.' ∉ ext.toList ∧ ∃ stem, stem ≠ [] ∧ name = stem ++ '.' :: ext.toList := by
  rw [extension?, h]
  dsimp only
  constructor
  · intro hext
    split at hext
    next => cases hext
    next => cases hext
    next hnil hone =>
      obtain ⟨c, rest, hdrop⟩ := List.exists_cons_of_ne_nil hnil
      obtain rfl : c = '.' := by
        have hnot := List.head?_dropWhile_not (· != '.') name.reverse
        rw [hdrop] at hnot
        simpa using hnot
      have hfront := Option.some.inj hext
      refine ⟨?_, rest.reverse, ?_, ?_⟩
      · rw [← hfront, String.toList_ofList, List.mem_reverse]
        intro hmem
        simpa using List.mem_takeWhile_imp hmem
      · intro hrest
        rw [List.reverse_eq_nil_iff.mp hrest] at hdrop
        exact hone _ hdrop
      · rw [← List.reverse_inj, ← hfront, String.toList_ofList, List.reverse_append,
          List.reverse_cons, List.reverse_reverse, List.reverse_reverse, List.append_assoc,
          List.singleton_append, ← hdrop, List.takeWhile_append_dropWhile]
  · rintro ⟨hdot, stem, hstem, rfl⟩
    have hpos : ∀ c ∈ ext.toList.reverse, (c != '.') = true := by
      intro c hc
      rw [List.mem_reverse] at hc
      exact bne_iff_ne.mpr fun heq => hdot (heq ▸ hc)
    obtain ⟨c, before, hcons⟩ := List.exists_cons_of_ne_nil (List.reverse_ne_nil_iff.mpr hstem)
    rw [List.reverse_append, List.reverse_cons, List.append_assoc, List.singleton_append, hcons,
      List.dropWhile_append_of_pos hpos, List.takeWhile_append_of_pos hpos]
    simp

/-! A name beside the last part. -/

theorem rdropWhile_cons (p : List Char → Bool) : (first :: rest).rdropWhile p =
    if rest.rdropWhile p = [] ∧ p first = true then [] else first :: rest.rdropWhile p := by
  have hnil : rest.reverse.dropWhile p = [] ↔ rest.rdropWhile p = [] := List.reverse_eq_nil_iff.symm
  rw [List.rdropWhile, List.reverse_cons, List.dropWhile_append]
  simp only [List.isEmpty_iff, hnil]
  by_cases hrest : rest.rdropWhile p = []
  · by_cases hfirst : p first = true <;> simp [hrest, hfirst]
  · rw [if_neg hrest, if_neg fun h => hrest h.1, List.reverse_append]
    rfl

theorem split_join {dir : Path} {name : String} (h : split dir.text.toList = parts ++ [part])
    (hpart : part ≠ []) (hname : '/' ∉ name.toList) :
    split (dir.join name).text.toList = parts ++ [part, name.toList] := by
  have hlast : some part = (split dir.text.toList).getLast? := by rw [h, List.getLast?_concat]
  -- A text that is empty or ends with a slash has an empty part at its end.
  unfold join
  split
  next hnil =>
    rw [List.getLast?_eq_none_iff.mp hnil] at hlast
    exact (hpart (Option.some.inj hlast)).elim
  next c hc =>
    obtain ⟨before, htext⟩ := List.getLast?_eq_some_iff.mp hc
    split
    next hslash =>
      rw [htext, hslash, split_append] at hlast
      exact (hpart (Option.some.inj (hlast.trans List.getLast?_concat))).elim
    next =>
      have hslash : "/".toList = ['/'] := rfl
      rw [String.toList_append, String.toList_append, hslash, List.append_assoc,
        List.singleton_append, split_append, h, split_of_not_mem hname, List.append_assoc]
      rfl

theorem split_join_root {name : String} (hname : '/' ∉ name.toList) :
    split ((⟨String.ofList ['/']⟩ : Path).join name).text.toList = [[], name.toList] := by
  have hjoin : ((⟨String.ofList ['/']⟩ : Path).join name).text = String.ofList ['/'] ++ name := rfl
  rw [hjoin, String.toList_append, String.toList_ofList, List.singleton_append, split_slash,
    split_of_not_mem hname]

/-- A directory without empty parts at its end, but for the first of its parts. -/
theorem split_join_of_trimmed {dir : Path} {name : String}
    (h : split dir.text.toList = first :: rest.rdropWhile isEmptyPart)
    (hfirst : rest.rdropWhile isEmptyPart = [] → first ≠ []) (hname : '/' ∉ name.toList) :
    split (dir.join name).text.toList =
      first :: (rest.rdropWhile isEmptyPart ++ [name.toList]) := by
  by_cases hnil : rest.rdropWhile isEmptyPart = []
  · rw [hnil] at h ⊢
    have hsplit : split dir.text.toList = [] ++ [first] := h
    exact split_join hsplit (hfirst hnil) hname
  · have hlast := List.rdropWhile_last_not isEmptyPart rest hnil
    rw [Bool.not_eq_true, isEmptyPart_eq_false] at hlast
    rw [← List.dropLast_append_getLast hnil, ← List.cons_append] at h
    rw [split_join h hlast.1 hname, List.cons_append, List.append_cons,
      List.dropLast_append_getLast hnil]

/-- The name stands where the last part stood. The first part is kept, empty or not, so that the
path still starts where it did. -/
theorem split_join_parent {name : String} (h : split p.text.toList = first :: (rest ++ [file]))
    (hfile : isEmptyPart file = false) (hname : '/' ∉ name.toList) :
    split ((p.parent?.getD ⟨""⟩).join name).text.toList =
      first :: (rest.rdropWhile isEmptyPart ++ [name.toList]) := by
  have hfront : split p.text.toList = (first :: rest) ++ [file] := h
  obtain ⟨inner, hinner, hdivided⟩ := exists_divided hfront hfile
  rw [parent?_eq hinner hfile, Option.getD_some]
  have hparts : ∀ part ∈ first :: rest.rdropWhile isEmptyPart, '/' ∉ part := by
    have hsub : first :: rest.rdropWhile isEmptyPart ⊆ split p.text.toList := by
      rw [hfront]
      exact List.subset_append_of_subset_left _
        (List.cons_subset_cons first (List.rdropWhile_prefix isEmptyPart rest).subset)
    exact fun part hmem => not_mem_of_mem_split (hsub hmem)
  generalize (splitStart p.text.toList).1 = start at hdivided
  clear hinner
  cases hdivided with
  | root =>
    by_cases hnil : rest.rdropWhile isEmptyPart = []
    · rw [hnil, joinParts, List.append_nil, split_join_root hname]
      rfl
    · refine split_join_of_trimmed ?_ (fun h => (hnil h).elim) hname
      rw [String.toList_ofList, List.singleton_append, split_slash, split_joinParts hnil]
      exact fun part hmem => hparts part (List.mem_cons_of_mem _ hmem)
  | dot =>
    refine split_join_of_trimmed ?_ (fun _ => by decide) hname
    rw [String.toList_ofList, rdropWhile_cons]
    by_cases hnil : rest.rdropWhile isEmptyPart = []
    · rw [if_pos ⟨hnil, rfl⟩, hnil]
      rfl
    · rw [if_neg fun h => hnil h.1, joinParts_cons hnil, List.nil_append, split_append,
        split_joinParts hnil]
      · rfl
      · exact fun part hmem => hparts part (List.mem_cons_of_mem _ hmem)
  | named _ hnamed =>
    refine split_join_of_trimmed ?_ (fun _ => (isEmptyPart_eq_false.mp hnamed).1) hname
    rw [String.toList_ofList, rdropWhile_cons, if_neg (by simp [hnamed]), List.nil_append,
      split_joinParts (List.cons_ne_nil _ _) hparts]

theorem split_join_parent_of_singleton {name : String} (h : split p.text.toList = [file])
    (hfile : isEmptyPart file = false) (hname : '/' ∉ name.toList) :
    split ((p.parent?.getD ⟨""⟩).join name).text.toList = [name.toList] := by
  have hfront : split p.text.toList = [] ++ [file] := h
  obtain ⟨inner, hinner, hdivided⟩ := exists_divided hfront hfile
  rw [parent?_eq hinner hfile, Option.getD_some]
  generalize (splitStart p.text.toList).1 = start at hdivided
  cases hdivided
  exact split_of_not_mem hname

end Emend.Path
