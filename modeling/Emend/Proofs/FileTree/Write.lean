import Emend.FileTree
import Emend.Proofs.Lists
import Mathlib.Logic.Function.Basic

/-! What writing a file changes: the one place that its path leads to. The path leads there again
afterwards, so what was written is read back. -/
namespace Emend

/-- What lies at a place, apart from what a directory holds. -/
inductive Spot
  | vacant
  | directory
  | file (contents : ByteArray)

namespace FileTree
variable {t u new : FileTree} {name n last : String} {names dir place : List String}
  {entries : List (String × FileTree)} {contents : ByteArray}

def spot (t : FileTree) (place : List String) : Spot :=
  match t.find? place with
  | none => .vacant
  | some (directory _) => .directory
  | some (file contents) => .file contents

theorem spot_eq_file : t.spot place = .file contents ↔ t.find? place = some (.file contents) := by
  rw [spot]
  cases t.find? place with
  | none => simp
  | some u => cases u <;> simp

theorem spot_cons (t : FileTree) (name : String) (names : List String) :
    t.spot (name :: names) = match t.child? name with
      | some c => c.spot names
      | none => .vacant := by
  rw [spot, find?]
  cases t.child? name <;> rfl

theorem exists_child (h : t.spot (name :: names) = .directory) :
    ∃ c, t.child? name = some c ∧ c.spot names = .directory := by
  rw [spot_cons] at h
  cases hc : t.child? name with
  | none =>
    rw [hc] at h
    cases h
  | some c =>
    rw [hc] at h
    exact ⟨c, rfl, h⟩

theorem spot_nil_of_child (h : t.child? name = some u) : t.spot [] = .directory := by
  cases t with
  | file contents => cases h
  | directory entries => rfl

/-- A directory lies in directories. -/
theorem spot_nil (h : t.spot dir = .directory) : t.spot [] = .directory := by
  cases dir with
  | nil => exact h
  | cons name names =>
    obtain ⟨c, hc, -⟩ := exists_child h
    exact spot_nil_of_child hc

theorem lookup_putEntry (n : String) : (putEntry name t entries).lookup n =
    if n = name then some t else entries.lookup n := by
  induction entries with
  | nil => rw [putEntry, lookup_cons_ite]
  | cons e entries ih =>
    obtain ⟨m, u⟩ := e
    rw [putEntry]
    by_cases hm : m = name
    · rw [if_pos hm, lookup_cons_ite, lookup_cons_ite, hm]
      split <;> rfl
    · rw [if_neg hm, lookup_cons_ite, lookup_cons_ite, ih]
      by_cases hn : n = name
      · rw [if_pos hn, if_pos hn, if_neg fun h => hm (h.symm.trans hn)]
      · rw [if_neg hn, if_neg hn]

theorem child?_put (n : String) : (put new t (name :: names)).child? n =
    if n = name then some (put new ((t.child? name).getD (directory [])) names)
    else t.child? n := by
  cases t <;> exact lookup_putEntry n

theorem spot_file (place : List String) :
    (file contents).spot place = if place = [] then .file contents else .vacant := by
  cases place <;> rfl

/-- Nothing lies below what is no directory. -/
theorem spot_below (h : t.spot place ≠ .directory) {q : List String} (hq : q ≠ []) :
    t.spot (place ++ q) = .vacant := by
  induction place generalizing t with
  | nil =>
    cases t with
    | file contents => rw [List.nil_append, spot_file, if_neg hq]
    | directory entries => exact (h rfl).elim
  | cons name place ih =>
    rw [spot_cons] at h
    rw [List.cons_append, spot_cons]
    cases hc : t.child? name with
    | none => rfl
    | some c =>
      rw [hc] at h
      exact ih h

/-- What a child lets see, its parent lets see below its name. -/
theorem update_spot_cons (h : t.child? name = some u) (s : Spot) (q : List String) :
    Function.update u.spot names s q = Function.update t.spot (name :: names) s (name :: q) := by
  simp [Function.update, spot_cons, h]

/-- A file is put where no directory is, inside one that is there already: nothing else changes. -/
theorem spot_put (hdir : t.spot dir = .directory) (hfree : t.spot (dir ++ [last]) ≠ .directory) :
    (put (file contents) t (dir ++ [last])).spot =
      Function.update t.spot (dir ++ [last]) (.file contents) := by
  induction dir generalizing t with
  | nil =>
    rw [List.nil_append] at hfree ⊢
    funext q
    cases q with
    | nil => exact hdir.symm
    | cons n q =>
      rw [spot_cons, child?_put]
      by_cases hn : n = last
      · subst hn
        simp only [if_pos, put, spot_file]
        by_cases hq : q = []
        · rw [if_pos hq, hq, Function.update_self]
        · rw [if_neg hq, Function.update_of_ne (by simp [hq])]
          exact (spot_below hfree hq).symm
      · rw [if_neg hn, Function.update_of_ne (by simp [hn]), spot_cons]
  | cons name dir ih =>
    obtain ⟨c, hc, hcdir⟩ := exists_child hdir
    rw [List.cons_append] at hfree ⊢
    rw [spot_cons, hc] at hfree
    funext q
    cases q with
    | nil => exact (spot_nil hdir).symm
    | cons n q =>
      rw [spot_cons, child?_put, hc]
      by_cases hn : n = name
      · subst hn
        rw [if_pos rfl]
        exact (congrFun (ih hcdir hfree) q).trans (update_spot_cons hc _ q)
      · rw [if_neg hn, Function.update_of_ne (by simp [hn]), spot_cons]

end FileTree

namespace Disk
open FileTree
variable {d d' : Disk} {root root' : FileTree} {p : Path} {place next dir : List String}
  {part last : String} {parts : List String} {contents : ByteArray}

theorem parts_eq_ok {start : List String} : d.parts p = .ok (start, parts) ↔
    ('\x00' ∉ p.text.toList ∧ p.text ≠ "" ∧ p.text.utf8ByteSize ≤ 4095) ∧
      start = (if p.text.toList.head? = some '/' then [] else d.here) ∧
      parts = (Path.split p.text.toList).map String.ofList := by
  have hlimit : maxPathBytes = 4095 := rfl
  simp only [Disk.parts, String.contains_char_eq, String.startsWith_char_eq_head?, hlimit,
    decide_eq_true_eq, beq_iff_eq]
  by_cases hzero : '\x00' ∈ p.text.toList
  · simp [hzero]
  · by_cases hempty : p.text = ""
    · simp [hempty]
    · by_cases hlong : 4095 < p.text.utf8ByteSize
      · simp [hzero, hempty, hlong, Nat.not_le_of_lt hlong]
      · simp [hzero, hempty, hlong, Nat.le_of_not_lt hlong, eq_comm]

/-- A file that is read has a path of a length that is not refused. -/
theorem utf8ByteSize_le_of_read (h : d.read p = .ok contents) : p.text.utf8ByteSize ≤ 4095 := by
  unfold read at h
  split at h
  next => cases h
  next start parts hparts => exact (parts_eq_ok.mp hparts).1.2.2

theorem enter_eq_ok : enter root place = .ok () ↔ root.spot place = .directory := by
  rw [enter, spot]
  cases root.find? place with
  | none => simp
  | some t => cases t <;> simp

/-- Where a step leads does not depend on what is in the directories that it goes through. -/
theorem step_of_directories (h : ∀ q, root.spot q = .directory → root'.spot q = .directory)
    (hstep : step root place part = .ok next) : step root' place part = .ok next := by
  unfold step at hstep ⊢
  split at hstep
  next => cases hstep
  next henter =>
    rw [enter_eq_ok.mpr (h place (enter_eq_ok.mp henter))]
    exact hstep

theorem walk_of_directories (h : ∀ q, root.spot q = .directory → root'.spot q = .directory)
    (hwalk : walk root place parts = .ok next) : walk root' place parts = .ok next := by
  induction parts generalizing place with
  | nil => exact hwalk
  | cons part parts ih =>
    rw [walk] at hwalk ⊢
    split at hwalk
    next hstep =>
      rw [step_of_directories h hstep]
      exact ih hwalk
    next => cases hwalk

theorem walk_append (before after : List String) : walk root place (before ++ after) =
    (walk root place before).bind fun dir => walk root dir after := by
  induction before generalizing place with
  | nil => rfl
  | cons part before ih =>
    rw [List.cons_append, walk, walk]
    cases step root place part with
    | error e => rfl
    | ok next => exact ih

theorem walk_append_singleton (hwalk : walk root place parts = .ok dir) :
    walk root place (parts ++ [part]) = step root dir part := by
  rw [walk_append, hwalk]
  simp only [Except.bind, walk]
  cases step root dir part <;> rfl

theorem directory_of_step (h : step root place part = .ok next) :
    root.spot place = .directory := by
  unfold step at h
  split at h
  next => cases h
  next henter => exact enter_eq_ok.mp henter

/-- A path names an entry of a directory: its last part is the name, and the others lead to the
directory. -/
structure Lies (d : Disk) (p : Path) (dir : List String) (last : String) : Prop where
  parts : ∃ start before, d.parts p = .ok (start, before ++ [last]) ∧
    walk d.root start before = .ok dir
  step : step d.root dir last = .ok (dir ++ [last])

theorem Lies.directory (h : d.Lies p dir last) : d.root.spot dir = .directory :=
  directory_of_step h.step

theorem Lies.unique {dir' : List String} {last' : String} (h : d.Lies p dir last)
    (h' : d.Lies p dir' last') : dir' = dir ∧ last' = last := by
  obtain ⟨start, before, hparts, hwalk⟩ := h.parts
  obtain ⟨start', before', hparts', hwalk'⟩ := h'.parts
  obtain ⟨rfl, heq⟩ := Prod.mk.inj (Except.ok.inj (hparts.symm.trans hparts'))
  obtain ⟨rfl, hlast⟩ := List.append_inj' heq rfl
  exact ⟨(Except.ok.inj (hwalk.symm.trans hwalk')).symm, (List.singleton_inj.mp hlast).symm⟩

/-- A file may be made or written to where a path leads, unless there is a directory. -/
structure Leads (d : Disk) (p : Path) (dir : List String) (last : String) : Prop
    extends d.Lies p dir last where
  free : d.root.spot (dir ++ [last]) ≠ .directory

/-- Without a slash at the end, the last part is the one that names the file. -/
theorem eq_append_of_dropWhile {before : List String}
    (h : parts.reverse.dropWhile (· == "") = last :: before) (hend : parts.getLast? ≠ some "") :
    parts = before.reverse ++ [last] ∧ last ≠ "" := by
  rw [← List.head?_reverse] at hend
  cases hr : parts.reverse with
  | nil =>
    rw [hr] at h
    cases h
  | cons part rest =>
    rw [hr] at h hend
    have hne : part ≠ "" := fun heq => hend (congrArg some heq)
    have hkeep : ¬ (part == "") = true := by simpa using hne
    rw [List.dropWhile_cons, if_neg hkeep] at h
    obtain ⟨rfl, rfl⟩ := List.cons.inj h
    rw [List.reverse_eq_cons_iff] at hr
    exact ⟨hr, hne⟩

theorem eq_of_step (hstep : step root dir last = .ok place) (hempty : last ≠ "")
    (hdot : last ≠ ".") (hdots : last ≠ "..") : place = dir ++ [last] := by
  simp only [step, hempty, hdot, hdots, or_self, if_false] at hstep
  split at hstep
  next => cases hstep
  next =>
    split at hstep
    next => cases hstep
    next =>
      cases hstep
      rfl

theorem leads_of_writable (h : d.writable p = .ok place) :
    ∃ dir last, place = dir ++ [last] ∧ d.Leads p dir last := by
  unfold writable at h
  split at h
  next => cases h
  next start parts hparts =>
    split at h
    next => cases h
    next last before hlast =>
      split at h
      next => cases h
      next dir hwalk =>
        split at h
        next => cases h
        next =>
          split at h
          next => cases h
          next hname =>
            obtain ⟨hdot, hdots, hend⟩ : last ≠ "." ∧ last ≠ ".." ∧ parts.getLast? ≠ some "" := by
              simpa only [not_or] using hname
            obtain ⟨rfl, hempty⟩ := eq_append_of_dropWhile hlast hend
            split at h
            next => cases h
            next target hstep =>
              obtain rfl := eq_of_step hstep hempty hdot hdots
              split at h
              next => cases h
              next hfree =>
                cases h
                refine ⟨dir, last, rfl, ⟨⟨start, before.reverse, hparts, hwalk⟩, hstep⟩,
                  fun hspot => ?_⟩
                rw [← enter_eq_ok, enter] at hspot
                split at hspot
                next => cases hspot
                next => cases hspot
                next entries hfind => exact hfree entries hfind

theorem lies_of_writable (h : d.writable p = .ok (dir ++ [last])) : d.Lies p dir last := by
  obtain ⟨dir', last', heq, hleads⟩ := leads_of_writable h
  obtain ⟨rfl, hlast⟩ := List.append_inj' heq rfl
  obtain rfl := List.singleton_inj.mp hlast
  exact hleads.toLies

theorem exists_write (h : d.writable p = .ok place) (contents : ByteArray) :
    ∃ d', d.write p contents = .ok d' := by
  rw [write, h]
  exact ⟨_, rfl⟩

/-- Writing changes the one place that the path leads to. -/
theorem spot_of_write (h : d.write p contents = .ok d') : ∃ dir last, d.Leads p dir last ∧
    d'.root.spot = Function.update d.root.spot (dir ++ [last]) (.file contents) := by
  unfold write at h
  split at h
  next => cases h
  next place hplace =>
    cases h
    obtain ⟨dir, last, rfl, hleads⟩ := leads_of_writable hplace
    exact ⟨dir, last, hleads, spot_put hleads.directory hleads.free⟩

theorem here_of_write (h : d.write p contents = .ok d') : d'.here = d.here := by
  unfold write at h
  split at h <;> cases h
  rfl

/-- What is written is read back. -/
theorem read_of_write (h : d.write p contents = .ok d') : d'.read p = .ok contents := by
  obtain ⟨dir, last, hleads, hspot⟩ := spot_of_write h
  obtain ⟨start, before, hparts, hwalk⟩ := hleads.parts
  -- The place that changes was no directory, so all directories are still there.
  have hdirs : ∀ q, d.root.spot q = .directory → d'.root.spot q = .directory := by
    intro q hq
    have hne : q ≠ dir ++ [last] := fun heq => hleads.free (heq ▸ hq)
    rw [hspot, Function.update_of_ne hne, hq]
  have hparts' : d'.parts p = .ok (start, before ++ [last]) := by
    rw [← hparts, parts, parts, here_of_write h]
  have hplace' : walk d'.root start (before ++ [last]) = .ok (dir ++ [last]) := by
    rw [walk_append_singleton (walk_of_directories hdirs hwalk)]
    exact step_of_directories hdirs hleads.step
  have hfile : d'.root.spot (dir ++ [last]) = .file contents := by
    rw [hspot, Function.update_self]
  simp only [read, hparts', hplace', spot_eq_file.mp hfile]

/-- One file is written: the one that the path leads to, where it is found again. -/
structure Wrote (d : Disk) (p : Path) (dir : List String) (last : String) (contents : ByteArray)
    (d' : Disk) : Prop where
  leads : d.Leads p dir last
  spot : d'.root.spot = Function.update d.root.spot (dir ++ [last]) (.file contents)
  here : d'.here = d.here
  read : d'.read p = .ok contents

theorem exists_wrote (h : d.write p contents = .ok d') :
    ∃ dir last, d.Wrote p dir last contents d' := by
  obtain ⟨dir, last, hleads, hspot⟩ := spot_of_write h
  exact ⟨dir, last, hleads, hspot, here_of_write h, read_of_write h⟩

end Disk
end Emend
