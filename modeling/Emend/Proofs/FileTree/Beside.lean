import Emend.Proofs.FileTree.Write
import Emend.Proofs.Path

/-! Where the file lies that stands beside another by its path. -/
namespace Emend.Disk
open FileTree

variable {d : Disk} {root : FileTree} {p : Path} {place dir dir' start parts before : List String}
  {part last last' name : String} {contents : ByteArray}

/-- What a directory lies in is a directory. -/
theorem spot_dropLast (h : root.spot dir = .directory) : root.spot dir.dropLast = .directory := by
  obtain rfl | ⟨above, name, rfl⟩ := List.eq_nil_or_concat' dir
  · exact h
  · rw [List.dropLast_concat]
    by_contra hne
    rw [spot_below hne (List.cons_ne_nil name [])] at h
    cases h

/-- A step to a file is a step to a name. -/
theorem name_of_step (hstep : step root dir last = .ok place)
    (hfile : root.spot place = .file contents) : place = dir ++ [last] := by
  have hdir := directory_of_step hstep
  unfold step at hstep
  rw [enter_eq_ok.mpr hdir] at hstep
  dsimp only at hstep
  split at hstep
  next =>
    cases hstep
    rw [hdir] at hfile
    cases hfile
  next =>
    split at hstep
    next =>
      cases hstep
      rw [spot_dropLast hdir] at hfile
      cases hfile
    next =>
      split at hstep
      next => cases hstep
      next => exact (Except.ok.inj hstep).symm

/-- A file that is read lies somewhere. -/
theorem lies_of_read (h : d.read p = .ok contents) : ∃ dir last, d.Lies p dir last := by
  unfold read at h
  split at h
  next => cases h
  next start parts hparts =>
    split at h
    next => cases h
    next place hwalk =>
      split at h
      next => cases h
      next => cases h
      next contents' hfind =>
        have hne : parts ≠ [] := by
          rw [(parts_eq_ok.mp hparts).2.2, ne_eq, List.map_eq_nil_iff]
          exact Path.split_ne_nil _
        obtain ⟨before, last, rfl⟩ := (List.eq_nil_or_concat' parts).resolve_left hne
        rw [walk_append] at hwalk
        cases hbefore : walk d.root start before with
        | error e =>
          rw [hbefore] at hwalk
          cases hwalk
        | ok dir =>
          rw [← walk_append, walk_append_singleton hbefore] at hwalk
          obtain rfl := name_of_step hwalk (spot_eq_file.mpr hfind)
          exact ⟨dir, last, ⟨start, before, hparts, hbefore⟩, hwalk⟩

theorem Lies.named (h : d.Lies p dir last) : last ≠ "" ∧ last ≠ "." ∧ last ≠ ".." := by
  have hstep := h.step
  unfold Disk.step at hstep
  rw [enter_eq_ok.mpr h.directory] at hstep
  -- The step adds a name, where these stay in place or go up.
  refine ⟨?_, ?_, ?_⟩
  all_goals
    rintro rfl
    have hlength := congrArg List.length (Except.ok.inj hstep)
    simp at hlength

theorem isEmptyPart_toList : Path.isEmptyPart part.toList = true ↔ part = "" ∨ part = "." := by
  have hdot : part.toList = ".".toList ↔ part = "." := String.toList_inj
  have hlist : ".".toList = ['.'] := rfl
  rw [hlist] at hdot
  simp [Path.isEmptyPart, hdot]

theorem Lies.isEmptyPart_eq_false (h : d.Lies p dir last) :
    Path.isEmptyPart last.toList = false := by
  obtain ⟨hempty, hdot, -⟩ := h.named
  rw [← Bool.not_eq_true, isEmptyPart_toList]
  exact not_or.mpr ⟨hempty, hdot⟩

/-- The parts of a path that leads to a name. An empty part before it stands for the root. -/
theorem Lies.exists_parts (h : d.Lies p dir last) : ∃ before : List String,
    Path.split p.text.toList = before.map String.toList ++ [last.toList] ∧
    walk d.root (if before.head? = some "" then [] else d.here) before = .ok dir := by
  obtain ⟨start, before, hparts, hwalk⟩ := h.parts
  obtain ⟨-, rfl, hmap⟩ := parts_eq_ok.mp hparts
  have hsplit : Path.split p.text.toList = before.map String.toList ++ [last.toList] := by
    simpa [Function.comp_def] using (congrArg (List.map String.toList) hmap).symm
  have hroot : p.text.toList.head? = some '/' ↔ before.head? = some "" := by
    rw [Path.head?_eq_slash, hsplit]
    cases before <;> simp
  refine ⟨before, hsplit, ?_⟩
  simpa only [hroot] using hwalk

/-- Parts that name no step lead nowhere. -/
theorem eq_of_walk_emptyParts (h : ∀ part ∈ parts, part = "" ∨ part = ".")
    (hwalk : walk root place parts = .ok dir) : dir = place := by
  induction parts with
  | nil => exact (Except.ok.inj hwalk).symm
  | cons part parts ih =>
    obtain ⟨hpart, hparts⟩ := List.forall_mem_cons.mp h
    rw [walk, step] at hwalk
    cases henter : enter root place with
    | error e =>
      rw [henter] at hwalk
      cases hwalk
    | ok u =>
      rw [henter] at hwalk
      dsimp only at hwalk
      rw [if_pos hpart] at hwalk
      exact ih hparts hwalk

theorem walk_of_append_emptyParts {after : List String}
    (h : ∀ part ∈ after, part = "" ∨ part = ".")
    (hwalk : walk root place (before ++ after) = .ok dir) :
    walk root place before = .ok dir := by
  rw [walk_append] at hwalk
  cases hbefore : walk root place before with
  | error e =>
    rw [hbefore] at hwalk
    cases hwalk
  | ok mid =>
    rw [hbefore] at hwalk
    rw [eq_of_walk_emptyParts h hwalk]

theorem rdropWhile_map (p : List Char → Bool) (parts : List String) :
    (parts.map String.toList).rdropWhile p =
      (parts.rdropWhile fun part => p part.toList).map String.toList := by
  rw [List.rdropWhile, List.rdropWhile, ← List.map_reverse, List.dropWhile_map, List.map_reverse]
  rfl

/-- A name that is joined to the parent of a path stands in the same directory. -/
theorem Lies.join_parent (h : d.Lies p dir last) (hname : '/' ∉ name.toList)
    (hbeside : d.Lies ((p.parent?.getD ⟨""⟩).join name) dir' last') :
    dir' = dir ∧ last' = name := by
  obtain ⟨before, hsplit, hwalk⟩ := h.exists_parts
  obtain ⟨before', hsplit', hwalk'⟩ := hbeside.exists_parts
  cases before with
  | nil =>
    rw [Path.split_join_parent_of_singleton hsplit h.isEmptyPart_eq_false hname,
      ← List.nil_append [name.toList]] at hsplit'
    obtain ⟨hnil, hlast⟩ := List.append_inj' hsplit' rfl
    obtain rfl := List.map_eq_nil_iff.mp hnil.symm
    exact ⟨Except.ok.inj (hwalk'.symm.trans hwalk),
      String.toList_inj.mp (List.singleton_inj.mp hlast).symm⟩
  | cons first rest =>
    rw [Path.split_join_parent hsplit h.isEmptyPart_eq_false hname, rdropWhile_map,
      ← List.cons_append, ← List.map_cons] at hsplit'
    obtain ⟨hkept, hlast⟩ := List.append_inj' hsplit' rfl
    obtain rfl := List.map_injective_iff.mpr (fun _ _ => String.toList_inj.mp) hkept
    -- The parts that the parent is without are empty: they lead nowhere.
    have hempty : ∀ part ∈ rest.rtakeWhile fun part => Path.isEmptyPart part.toList,
        part = "" ∨ part = "." := by
      intro part hpart
      have hblank := List.mem_rtakeWhile_imp hpart
      exact isEmptyPart_toList.mp hblank
    rw [← List.rdropWhile_append_rtakeWhile (p := fun part => Path.isEmptyPart part.toList)
      (l := rest), ← List.cons_append] at hwalk
    exact ⟨Except.ok.inj (hwalk'.symm.trans (walk_of_append_emptyParts hempty hwalk)),
      String.toList_inj.mp (List.singleton_inj.mp hlast).symm⟩

/-- The extension of a path is that of the name that it leads to. -/
theorem Lies.extension?_eq_some {ext : String} (h : d.Lies p dir last) (hext : '.' ∉ ext.toList) :
    p.extension? = some ext ↔ ∃ stem, stem ≠ "" ∧ last = stem ++ ("." ++ ext) := by
  obtain ⟨before, hsplit, -⟩ := h.exists_parts
  have hdots : last.toList ≠ ['.', '.'] := fun heq => h.named.2.2 (String.toList_inj.mp heq)
  rw [Path.extension?_eq_some (Path.fileName?_eq hsplit h.isEmptyPart_eq_false hdots)]
  constructor
  · rintro ⟨-, stem, hstem, heq⟩
    refine ⟨String.ofList stem, ?_, String.toList_inj.mp ?_⟩
    · simpa using hstem
    · simp [heq]
  · rintro ⟨stem, hstem, rfl⟩
    exact ⟨hext, stem.toList, by simpa using hstem, by simp⟩

end Emend.Disk
