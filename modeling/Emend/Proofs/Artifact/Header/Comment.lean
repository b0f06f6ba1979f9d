import Emend.Artifact.Header
import Emend.Proofs.Artifact.Header.Lexeme
import Emend.Proofs.Artifact.Join
import Emend.Proofs.Table.Acceptance

/-! The comment that a C header opens with, line by line. Names and corrections go into it as they
are, and a newline in one of them ends the comment there. -/
namespace Emend

/-- The dictionary that a region was made of. -/
def Region.dictionary (d : Region) : Dictionary := ⟨d.name, d.pairs⟩

namespace Artifact

/-- An artifact keeps the names and the pairs of its dictionaries, in their order. -/
theorem map_dictionary {ds : List Dictionary} {a : Artifact} (h : compile ds = .ok a) :
    a.regions.map Region.dictionary = ds := by
  obtain ⟨ts, hts, hjoins⟩ := joins_of_compile h
  have hlength : ts.length = ds.length := by simpa using (congrArg List.length hts).symm
  apply List.ext_getElem?
  intro i
  have hcompiled := congrArg (·[i]?) hts
  simp only [List.getElem?_map] at hcompiled
  rw [List.getElem?_map]
  cases ht : ts[i]? with
  | none =>
    rw [ht] at hcompiled
    have hend := List.getElem?_eq_none_iff.mp ht
    rw [List.getElem?_eq_none (hjoins.count ▸ hend), Option.map_none]
    exact (Option.map_eq_none_iff.mp hcompiled).symm
  | some t =>
    rw [ht] at hcompiled
    obtain ⟨d, hd, hcompiled⟩ := Option.map_eq_some_iff.mp hcompiled
    obtain ⟨tree, ht'⟩ := Table.compile_eq_ok.mp hcompiled
    obtain ⟨r, hr, hname, -, -, -, -, -, hpairs, -⟩ := hjoins.described ht
    rw [hr, hd, Option.map_some, Region.dictionary, hname, hpairs, ht'.name, ht'.pairs]

namespace Header

/-! Lines of a text. -/

/-- What stands between the newlines of a text. -/
def linesOf (text : String) : List String := (text.toList.splitOn '\n').map String.ofList

section
variable {s t line text : String} {texts : List String} {x : Char} {xs ys : List Char}

theorem not_mem_of_mem_splitOn {l : List Char} (h : l ∈ xs.splitOn x) : x ∉ l := by
  induction xs generalizing l with
  | nil =>
    rw [List.splitOn_nil, List.mem_singleton] at h
    subst h
    exact List.not_mem_nil
  | cons c xs ih =>
    rw [List.splitOn_cons_eq_if_modifyHead] at h
    obtain ⟨first, others, hsplit⟩ := List.exists_cons_of_ne_nil (List.splitOn_ne_nil x xs)
    simp only [hsplit] at h ih
    split at h
    next =>
      rcases List.mem_cons.mp h with rfl | hl
      · exact List.not_mem_nil
      · exact ih hl
    next hc =>
      rw [List.modifyHead_cons] at h
      rcases List.mem_cons.mp h with rfl | hl
      · have hfirst := ih List.mem_cons_self
        have hne : x ≠ c := by
          rintro rfl
          exact hc (beq_self_eq_true x)
        exact List.not_mem_cons_of_ne_of_not_mem hne hfirst
      · exact ih (List.mem_cons_of_mem _ hl)

theorem splitOn_append_of_not_mem (h : x ∉ xs) :
    (xs ++ ys).splitOn x = (ys.splitOn x).modifyHead (xs ++ ·) := by
  obtain ⟨first, others, hsplit⟩ := List.exists_cons_of_ne_nil (List.splitOn_ne_nil x ys)
  induction xs with
  | nil => simp [hsplit]
  | cons c xs ih =>
    have hne : (c == x) = false := beq_false_of_ne fun hcx => h (hcx ▸ List.mem_cons_self)
    have hxs := ih fun hx => h (List.mem_cons_of_mem c hx)
    rw [List.cons_append, List.splitOn_cons_eq_if_modifyHead, hne, hxs, hsplit]
    rfl

theorem linesOf_newline (s t : String) : linesOf (s ++ "\n" ++ t) = linesOf s ++ linesOf t := by
  have hnewline : "\n".toList = ['\n'] := rfl
  rw [linesOf, String.toList_append, String.toList_append, hnewline, List.append_assoc,
    List.singleton_append, List.splitOn_append_cons_self, List.map_append]
  rfl

theorem newline_not_mem_of_mem_linesOf (h : line ∈ linesOf text) : '\n' ∉ line.toList := by
  obtain ⟨l, hl, rfl⟩ := List.mem_map.mp h
  rw [String.toList_ofList]
  exact not_mem_of_mem_splitOn hl

theorem linesOf_of_not_mem (h : '\n' ∉ text.toList) : linesOf text = [text] := by
  rw [linesOf, List.splitOn_eq_singleton h, List.map_singleton, String.ofList_toList]

/-- Behind a text without newlines, the first line goes on and the others stay. -/
theorem linesOf_append (h : '\n' ∉ s.toList) :
    ∃ first, linesOf (s ++ t) = (s ++ first) :: (linesOf t).tail := by
  obtain ⟨first, others, hsplit⟩ := List.exists_cons_of_ne_nil (List.splitOn_ne_nil '\n' t.toList)
  refine ⟨String.ofList first, ?_⟩
  rw [linesOf, linesOf, String.toList_append, splitOn_append_of_not_mem h, hsplit]
  simp

/-- Texts come out as they went in, one on each line, exactly if there is no newline in them. -/
theorem flatMap_linesOf_eq_self : texts.flatMap linesOf = texts ↔
    ∀ text ∈ texts, '\n' ∉ text.toList := by
  constructor
  · intro h text htext
    rw [← h] at htext
    obtain ⟨s, -, hs⟩ := List.mem_flatMap.mp htext
    exact newline_not_mem_of_mem_linesOf hs
  · intro h
    induction texts with
    | nil => rfl
    | cons text texts ih =>
      obtain ⟨htext, htexts⟩ := List.forall_mem_cons.mp h
      rw [List.flatMap_cons, linesOf_of_not_mem htext, ih htexts, List.singleton_append]

end

/-! The texts that the comment is made of. -/

/-- Nothing, or a comment up to the end of the line. -/
def IsComment (line : String) : Prop := line = "" ∨ "//".toList <+: line.toList

instance : DecidablePred IsComment := fun line =>
  inferInstanceAs (Decidable (line = "" ∨ "//".toList <+: line.toList))

/-- One line of the comment: what is always written there, and a text that is put behind it. -/
structure Remark where
  lead : String
  body : String

def Remark.text (r : Remark) : String := r.lead ++ r.body

def Remark.blank : Remark := ⟨"", ""⟩

def Remark.rule : Remark := ⟨"// ---------------", ""⟩

/-- What is always written is on one line, and makes a comment of it. -/
structure Remark.Sound (r : Remark) : Prop where
  unbroken : '\n' ∉ r.lead.toList
  marked : "//".toList <+: r.lead.toList ∨ r = .blank

def nameRemark (d : Dictionary) : Remark := ⟨"// From ", d.name⟩

def pairRemark (width : Nat) (p : Pair) : Remark :=
  ⟨"//   " ++ padRight width p.typo ++ " -> ", p.correction⟩

def openingRemarks (count : Nat) : List Remark :=
  [⟨"// Generated code.", ""⟩, .blank,
    ⟨"// Autocorrection dictionary (" ++ toString count ++ " entries):", ""⟩]

/-- The column of the arrows, which stands clear of every typo. -/
def typoWidth (ps : List Pair) : Nat := ((ps.map Pair.typoLength).max?).getD 0

/-- The name of a dictionary, its pairs, and a rule below them. -/
def sectionRemarks (d : Dictionary) : List Remark :=
  nameRemark d :: (d.pairs.map (pairRemark (typoWidth d.pairs)) ++ [.rule])

/-- The whole comment. The empty line at its end sets it apart from the definitions. -/
def remarks (ds : List Dictionary) : List Remark :=
  openingRemarks (ds.flatMap (·.pairs)).length ++ ds.flatMap sectionRemarks ++ [.blank]

/-- What the dictionaries themselves put into the comment. -/
def pasted (ds : List Dictionary) : List String :=
  ds.flatMap fun d => d.name :: d.pairs.map (·.correction)

variable {r : Remark} {rs : List Remark} {ds : List Dictionary} {a : Artifact} {out : String}

theorem isComment_append {s t : String} (h : "//".toList <+: s.toList) : IsComment (s ++ t) := by
  apply Or.inr
  rw [String.toList_append]
  exact h.trans (List.prefix_append _ _)

theorem Remark.Sound.isComment (h : r.Sound) : IsComment r.text := by
  rcases h.marked with hmarked | rfl
  · exact isComment_append hmarked
  · exact Or.inl rfl

/-- Whatever is put behind it, the first line is a comment. -/
theorem Remark.Sound.linesOf_text (h : r.Sound) :
    ∃ first, IsComment first ∧ linesOf r.text = first :: (linesOf r.body).tail := by
  rcases h.marked with hmarked | rfl
  · obtain ⟨first, hlines⟩ := linesOf_append (t := r.body) h.unbroken
    exact ⟨r.lead ++ first, isComment_append hmarked, hlines⟩
  · exact ⟨"", Or.inl rfl, rfl⟩

theorem Remark.Sound.forall_isComment (h : r.Sound) : (∀ line ∈ linesOf r.text, IsComment line) ↔
    ∀ line ∈ (linesOf r.body).tail, IsComment line := by
  obtain ⟨first, hfirst, hlines⟩ := h.linesOf_text
  rw [hlines, List.forall_mem_cons]
  exact and_iff_right hfirst

theorem Remark.Sound.newline_not_mem (h : r.Sound) :
    '\n' ∉ r.text.toList ↔ '\n' ∉ r.body.toList := by
  rw [Remark.text, String.toList_append, List.mem_append, not_or]
  exact and_iff_right h.unbroken

/-! The comment as it is written. -/

/-- `out` ends in a newline, or is empty, and holds the given texts line by line. Whether it ends
that way shows in what comes behind it. -/
def Written (out : String) (rs : List Remark) : Prop :=
  ∀ rest, linesOf (out ++ rest) = rs.flatMap (fun r => linesOf r.text) ++ linesOf rest

theorem Written.line (h : Written out rs) (r : Remark) :
    Written (out ++ (r.text ++ "\n")) (rs ++ [r]) := by
  intro rest
  rw [String.append_assoc, h, linesOf_newline, List.flatMap_append, List.flatMap_singleton,
    List.append_assoc]

theorem Written.pairs (h : Written out rs) (width : Nat) (ps : List Pair) :
    Written (ps.foldl (fun out p => out ++ pairLine width p) out)
      (rs ++ ps.map (pairRemark width)) := by
  induction ps generalizing out rs with
  | nil => simpa using h
  | cons p ps ih =>
    have hp := ih (h.line (pairRemark width p))
    rw [List.append_assoc] at hp
    exact hp

theorem Written.dictionary (h : Written out rs) (d : Region) :
    Written (sectionComment out d) (rs ++ sectionRemarks d.dictionary) := by
  have hname : Written (out ++ "// From " ++ d.name ++ "\n") (rs ++ [⟨"// From ", d.name⟩]) := by
    simpa only [Remark.text, String.append_assoc] using h.line ⟨"// From ", d.name⟩
  have hrule := (hname.pairs (typoWidth d.pairs) d.pairs).line .rule
  rw [List.append_assoc, List.append_assoc] at hrule
  exact hrule

theorem Written.dictionaries (h : Written out rs) (regions : List Region) :
    Written (regions.foldl sectionComment out)
      (rs ++ (regions.map Region.dictionary).flatMap sectionRemarks) := by
  induction regions generalizing out rs with
  | nil => simpa using h
  | cons d regions ih =>
    have hd := ih (h.dictionary d)
    rw [List.append_assoc] at hd
    exact hd

theorem written_opening (count : Nat) :
    Written ("// Generated code.\n\n// Autocorrection dictionary (" ++ toString count
      ++ " entries):\n") (openingRemarks count) := by
  have hempty : Written "" [] := by
    intro rest
    rw [String.empty_append]
    rfl
  have hall := ((hempty.line ⟨"// Generated code.", ""⟩).line .blank).line
    ⟨"// Autocorrection dictionary (" ++ toString count ++ " entries):", ""⟩
  have hfront : "// Generated code.\n\n// Autocorrection dictionary (" =
      "// Generated code." ++ ("\n" ++ ("\n" ++ "// Autocorrection dictionary (")) := rfl
  have hend : " entries):\n" = " entries):" ++ "\n" := rfl
  simp only [Remark.text, Remark.blank, String.empty_append, String.append_empty,
    String.append_assoc] at hall
  rw [hfront, hend]
  simp only [String.append_assoc]
  exact hall

theorem written_comment (a : Artifact) : Written (comment a)
    (openingRemarks a.pairCount ++ (a.regions.map Region.dictionary).flatMap sectionRemarks) :=
  (written_opening a.pairCount).dictionaries a.regions

theorem linesOf_comment (a : Artifact) : linesOf (comment a) =
    (remarks (a.regions.map Region.dictionary)).flatMap fun r => linesOf r.text := by
  have hcount : ((a.regions.map Region.dictionary).flatMap (·.pairs)).length = a.pairCount := by
    rw [pairCount, List.flatMap_map]
    rfl
  have hall := written_comment a ""
  rw [String.append_empty] at hall
  rw [remarks, hcount, List.flatMap_append, List.flatMap_singleton]
  exact hall

/-- The definitions begin right below the comment. -/
theorem linesOf_render (a : Artifact) :
    ∃ below, linesOf (render a) = linesOf (comment a) ++ "#pragma once" :: below := by
  have hhead : "\n#pragma once\n\n#define N_DICTS " =
      "" ++ "\n" ++ ("#pragma once" ++ "\n" ++ "\n#define N_DICTS ") := rfl
  have hdefinitions : ∃ rest, definitions a =
      "" ++ "\n" ++ ("#pragma once" ++ "\n" ++ ("\n#define N_DICTS " ++ rest)) := by
    unfold definitions
    rw [hhead]
    simp only [String.append_assoc]
    exact ⟨_, rfl⟩
  obtain ⟨rest, hrest⟩ := hdefinitions
  have hpragma : linesOf "#pragma once" = ["#pragma once"] := linesOf_of_not_mem (by decide)
  have hcomment := written_comment a ""
  rw [String.append_empty] at hcomment
  refine ⟨linesOf ("\n#define N_DICTS " ++ rest), ?_⟩
  rw [render, written_comment, hrest, linesOf_newline, linesOf_newline, hpragma, hcomment,
    List.append_assoc]
  rfl

theorem linesOf_render_of_compile (h : compile ds = .ok a) : ∃ below, linesOf (render a) =
    ((remarks ds).flatMap fun r => linesOf r.text) ++ "#pragma once" :: below := by
  obtain ⟨below, hbelow⟩ := linesOf_render a
  rw [linesOf_comment, map_dictionary h] at hbelow
  exact ⟨below, hbelow⟩

/-! What dictionaries put into the comment. -/

theorem newline_not_mem_padRight {width : Nat} {s : String} (h : '\n' ∉ s.toList) :
    '\n' ∉ (padRight width s).toList := by
  rw [padRight, String.toList_append, String.toList_ofList, List.mem_append, not_or]
  refine ⟨h, ?_⟩
  intro hspace
  exact absurd (List.eq_of_mem_replicate hspace) (by decide)

theorem forall_mem_remarks {P : Remark → Prop} : (∀ r ∈ remarks ds, P r) ↔
    (∀ r ∈ openingRemarks (ds.flatMap (·.pairs)).length, P r) ∧
      (∀ d ∈ ds, P (nameRemark d) ∧
        (∀ p ∈ d.pairs, P (pairRemark (typoWidth d.pairs) p)) ∧ P .rule) ∧ P .blank := by
  simp only [remarks, sectionRemarks, List.forall_mem_append, List.forall_mem_flatMap,
    List.forall_mem_cons, List.forall_mem_map, List.not_mem_nil, false_implies, implies_true,
    and_true, and_assoc]

theorem forall_mem_pasted {P : String → Prop} : (∀ text ∈ pasted ds, P text) ↔
    ∀ d ∈ ds, P d.name ∧ ∀ p ∈ d.pairs, P p.correction := by
  simp only [pasted, List.forall_mem_flatMap, List.forall_mem_cons, List.forall_mem_map]

/-- What holds of the empty text holds of everything put behind a line if it does so of what the
dictionaries put there. -/
theorem forall_body {P : String → Prop} (hempty : P "") :
    (∀ r ∈ remarks ds, P r.body) ↔ ∀ text ∈ pasted ds, P text := by
  rw [forall_mem_remarks, forall_mem_pasted]
  constructor
  · rintro ⟨-, hsections, -⟩ d hd
    exact ⟨(hsections d hd).1, (hsections d hd).2.1⟩
  · intro h
    refine ⟨?_, fun d hd => ⟨(h d hd).1, (h d hd).2, hempty⟩, hempty⟩
    simp only [openingRemarks, List.forall_mem_cons]
    exact ⟨hempty, hempty, hempty, List.forall_mem_nil _⟩

theorem Remark.sound_between {s m e body : String} (hslashes : "//".toList <+: s.toList)
    (hs : '\n' ∉ s.toList) (hm : '\n' ∉ m.toList) (he : '\n' ∉ e.toList) :
    (⟨s ++ m ++ e, body⟩ : Remark).Sound := by
  refine ⟨?_, Or.inl ?_⟩
  · simp only [String.toList_append, List.mem_append, not_or]
    exact ⟨⟨hs, hm⟩, he⟩
  · rw [String.toList_append, String.toList_append, List.append_assoc]
    exact hslashes.trans (List.prefix_append _ _)

theorem Remark.sound_blank : Remark.blank.Sound := ⟨List.not_mem_nil, Or.inr rfl⟩

theorem sound_openingRemarks (count : Nat) : ∀ r ∈ openingRemarks count, r.Sound := by
  have hcount : '\n' ∉ (toString count).toList := by
    intro hnewline
    have hdigit := isDigit_of_mem_toString hnewline
    exact absurd hdigit (by decide)
  simp only [openingRemarks, List.forall_mem_cons]
  refine ⟨⟨by decide, Or.inl (by decide)⟩, Remark.sound_blank, ?_, List.forall_mem_nil _⟩
  exact Remark.sound_between (by decide) (by decide) hcount (by decide)

theorem sound_pairRemark {width : Nat} {p : Pair} (h : '\n' ∉ p.typo.toList) :
    (pairRemark width p).Sound :=
  Remark.sound_between (by decide) (by decide) (newline_not_mem_padRight h) (by decide)

theorem sound_of_mem_remarks (h : ∀ d ∈ ds, ∀ p ∈ d.pairs, '\n' ∉ p.typo.toList) :
    ∀ r ∈ remarks ds, r.Sound := by
  refine forall_mem_remarks.mpr ⟨sound_openingRemarks _, ?_, Remark.sound_blank⟩
  have hname : '\n' ∉ "// From ".toList := by decide
  have hslashes : "//".toList <+: "// From ".toList := by decide
  intro d hd
  refine ⟨⟨hname, Or.inl hslashes⟩, ?_, ⟨by decide, Or.inl (by decide)⟩⟩
  intro p hp
  exact sound_pairRemark (h d hd p hp)

theorem newline_not_mem_typo (h : compile ds = .ok a) :
    ∀ d ∈ ds, ∀ p ∈ d.pairs, '\n' ∉ p.typo.toList := by
  intro d hd p hp hnewline
  obtain ⟨t, ht⟩ := (exists_compile_iff.mp ⟨a, h⟩).2 d hd
  have htypos := (Table.acceptable_of_compile ht).typos
  have hcontains := htypos.alphabet p hp _ hnewline
  exact absurd hcontains (by decide)

/-- Above the definitions there are only comments and empty lines exactly if, of what the
dictionaries put there, this holds of every line but the first. Each pair has its one line, with
nothing more between the lines that are always there, exactly if no newline is put there. -/
theorem comment_lines (h : compile ds = .ok a) :
    (∃ below, linesOf (render a) = linesOf (comment a) ++ "#pragma once" :: below) ∧
      ((∀ line ∈ linesOf (comment a), IsComment line) ↔
        ∀ text ∈ pasted ds, ∀ line ∈ (linesOf text).tail, IsComment line) ∧
      (linesOf (comment a) = (remarks ds).map Remark.text ↔
        ∀ text ∈ pasted ds, '\n' ∉ text.toList) ∧
      ∀ r ∈ remarks ds, IsComment r.text := by
  have hsound := sound_of_mem_remarks (newline_not_mem_typo h)
  have hlines := linesOf_comment a
  rw [map_dictionary h] at hlines
  have htail : (linesOf "").tail = [] := rfl
  refine ⟨linesOf_render a, ?_, ?_, ?_⟩
  · rw [← forall_body (by simp [htail]), hlines, List.forall_mem_flatMap]
    exact forall₂_congr fun r hr => (hsound r hr).forall_isComment
  · rw [← forall_body List.not_mem_nil, hlines, ← List.flatMap_map, flatMap_linesOf_eq_self,
      List.forall_mem_map]
    exact forall₂_congr fun r hr => (hsound r hr).newline_not_mem
  · intro r hr
    exact (hsound r hr).isComment

/-- Two dictionaries without a newline have a line for each pair, and nothing but comments. -/
theorem comment_lines_hte :
    ∃ a, compile [⟨"english", [⟨"hte", "the"⟩, ⟨":thier", "their"⟩]⟩, ⟨"more", [⟨"nad", "and"⟩]⟩] =
        .ok a ∧
      linesOf (comment a) = ["// Generated code.", "",
        "// Autocorrection dictionary (3 entries):", "// From english", "//   hte    -> the",
        "//   :thier -> their", "// ---------------", "// From more", "//   nad -> and",
        "// ---------------", ""] ∧
      ∀ line ∈ linesOf (comment a), IsComment line := by
  obtain ⟨a, ha⟩ : ∃ a, compile
      [⟨"english", [⟨"hte", "the"⟩, ⟨":thier", "their"⟩]⟩, ⟨"more", [⟨"nad", "and"⟩]⟩] = .ok a :=
    exists_of_isOk (by decide +kernel)
  obtain ⟨-, -, hlines, hcomments⟩ := comment_lines ha
  have hcomment := hlines.mpr (by decide)
  refine ⟨a, ha, ?_, ?_⟩
  · rw [hcomment]
    decide +kernel
  · rw [hcomment]
    exact List.forall_mem_map.mpr hcomments

/-- A newline in a name or in a correction leaves text outside the comment. -/
theorem comment_lines_newline :
    (∃ a below, compile [⟨"a\nb", [⟨"hte", "the"⟩]⟩] = .ok a ∧
      linesOf (render a) = ["// Generated code.", "", "// Autocorrection dictionary (1 entries):",
        "// From a", "b", "//   hte -> the", "// ---------------", ""] ++
        "#pragma once" :: below ∧ ¬ IsComment "b") ∧
    ∃ a below, compile [⟨"d", [⟨"hte", "the\nint x;"⟩]⟩] = .ok a ∧
      linesOf (render a) = ["// Generated code.", "", "// Autocorrection dictionary (1 entries):",
        "// From d", "//   hte -> the", "int x;", "// ---------------", ""] ++
        "#pragma once" :: below ∧ ¬ IsComment "int x;" := by
  constructor
  · obtain ⟨a, ha⟩ : ∃ a, compile [⟨"a\nb", [⟨"hte", "the"⟩]⟩] = .ok a :=
      exists_of_isOk (by decide +kernel)
    obtain ⟨below, hbelow⟩ := linesOf_render_of_compile ha
    refine ⟨a, below, ha, hbelow.trans (congrArg (· ++ _) ?_), by decide⟩
    decide +kernel
  · obtain ⟨a, ha⟩ : ∃ a, compile [⟨"d", [⟨"hte", "the\nint x;"⟩]⟩] = .ok a :=
      exists_of_isOk (by decide +kernel)
    obtain ⟨below, hbelow⟩ := linesOf_render_of_compile ha
    refine ⟨a, below, ha, hbelow.trans (congrArg (· ++ _) ?_), by decide⟩
    decide +kernel

end Header
end Artifact
end Emend
