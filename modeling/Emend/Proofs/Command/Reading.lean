import Emend.Command.Sources
import Emend.FileTree
import Emend.Proofs.Dictionary.Indifference
import Mathlib.Data.List.Forall2

/-! Programs that read files and change none, and what dictionaries they find. -/
namespace Emend

variable {α β : Type} {d d' : Disk} {x : StateM Disk α} {f : α → StateM Disk β} {a b : α}

/-- On disk `d` the program `x` gives `a`, and leaves the disk as it is. -/
def Disk.Sees (d : Disk) (x : StateM Disk α) (a : α) : Prop := x.run d = (a, d)

/-- A program that never changes the disk. -/
def ReadsOnly (x : StateM Disk α) : Prop := ∀ d : Disk, ∃ a, d.Sees x a

namespace Disk.Sees

theorem unique (ha : d.Sees x a) (hb : d.Sees x b) : a = b := congrArg Prod.fst (ha.symm.trans hb)

theorem run_bind (h : d.Sees x a) : (x >>= f).run d = (f a).run d := by
  rw [StateT.run_bind, h]
  rfl

theorem bind_iff (h : d.Sees x a) {c : β} : d.Sees (x >>= f) c ↔ d.Sees (f a) c := by
  rw [Disk.Sees, h.run_bind, Disk.Sees]

end Disk.Sees

theorem sees_pure (d : Disk) (a : α) : d.Sees (pure a) a := rfl

theorem sees_pure_iff : d.Sees (pure a) b ↔ a = b :=
  ⟨fun h => (sees_pure d a).unique h, fun h => h ▸ rfl⟩

theorem sees_read (d : Disk) (p : Path) : d.Sees (FileAccess.read p) (d.read p) := rfl

namespace ReadsOnly

theorem pure (a : α) : ReadsOnly (pure a) := fun _ => ⟨a, rfl⟩

theorem read (p : Path) : ReadsOnly (FileAccess.read p) := fun d => ⟨_, sees_read d p⟩

theorem bind (hx : ReadsOnly x) (hf : ∀ a, ReadsOnly (f a)) : ReadsOnly (x >>= f) := by
  intro d
  obtain ⟨a, ha⟩ := hx d
  obtain ⟨b, hb⟩ := hf a d
  exact ⟨b, ha.bind_iff.mpr hb⟩

theorem sees (h : ReadsOnly x) (hrun : x.run d = (a, d')) : d' = d ∧ d.Sees x a := by
  obtain ⟨b, hb⟩ := h d
  obtain ⟨rfl, rfl⟩ := Prod.mk.inj (hrun.symm.trans hb)
  exact ⟨rfl, hb⟩

end ReadsOnly

namespace Command
variable {words words' : WordList} {least least' : Nat} {path : Path} {paths : List Path}
  {wordList : Option Path} {settings : Settings} {deny : Bool} {v : VettedDictionary}
  {vs vs' : List VettedDictionary} {ds : List Dictionary}

/-! Nothing is changed. -/

theorem readsOnly_loadWords (path : Path) : ReadsOnly (loadWords path : StateM Disk _) := by
  refine (ReadsOnly.read path).bind fun r => ?_
  cases r <;> exact ReadsOnly.pure _

theorem readsOnly_chooseWords (wordList : Option Path) (settings : Settings) :
    ReadsOnly (chooseWords wordList settings : StateM Disk _) := by
  unfold chooseWords
  split
  · exact ReadsOnly.pure _
  · refine (readsOnly_loadWords _).bind fun r => ?_
    cases r <;> exact ReadsOnly.pure _

theorem readsOnly_loadDictionary (words : WordList) (least : Nat) (path : Path) :
    ReadsOnly (loadDictionary words least path : StateM Disk _) := by
  refine (ReadsOnly.read path).bind fun r => ?_
  split <;> exact ReadsOnly.pure _

theorem readsOnly_loadAll (words : WordList) (least : Nat) (paths : List Path) :
    ReadsOnly (loadAll words least paths : StateM Disk _) := by
  induction paths with
  | nil => exact ReadsOnly.pure _
  | cons path paths ih =>
    refine (readsOnly_loadDictionary words least path).bind fun r => ?_
    cases r with
    | error e => exact ReadsOnly.pure _
    | ok v =>
      refine ih.bind fun r => ?_
      cases r <;> exact ReadsOnly.pure _

theorem readsOnly_gather (paths : List Path) (wordList : Option Path) (settings : Settings)
    (deny : Bool) : ReadsOnly (gather paths wordList settings deny : StateM Disk _) := by
  unfold gather
  split
  · exact ReadsOnly.pure _
  · refine (readsOnly_chooseWords wordList settings).bind fun r => ?_
    cases r with
    | error e => exact ReadsOnly.pure _
    | ok words =>
      refine (readsOnly_loadAll _ _ _).bind fun r => ?_
      cases r <;> exact ReadsOnly.pure _

/-! What is found. -/

theorem loadWords_eq_ok : d.Sees (loadWords path) (.ok words) ↔
    ∃ bytes, d.read path = .ok bytes ∧ WordList.ofBytes? bytes.data.toList = some words := by
  rw [loadWords, (sees_read d path).bind_iff]
  cases d.read path with
  | error e => simp [sees_pure_iff]
  | ok bytes =>
    cases h : WordList.ofBytes? bytes.data.toList <;> simp [sees_pure_iff, h]

theorem loadDictionary_eq_ok : d.Sees (loadDictionary words least path) (.ok v) ↔
    ∃ bytes, d.read path = .ok bytes ∧
      VettedDictionary.ofBytes path.text bytes.data.toList words least = .ok v := by
  rw [loadDictionary, (sees_read d path).bind_iff]
  cases d.read path with
  | error e => cases e <;> simp [sees_pure_iff]
  | ok bytes => simp [sees_pure_iff]

/-- Each file holds the dictionary that stands at its place in the list. -/
theorem loadAll_eq_ok : d.Sees (loadAll words least paths) (.ok vs) ↔
    List.Forall₂ (fun path v => d.Sees (loadDictionary words least path) (.ok v)) paths vs := by
  induction paths generalizing vs with
  | nil => simp [loadAll, sees_pure_iff, eq_comm]
  | cons path paths ih =>
    obtain ⟨first, hfirst⟩ := readsOnly_loadDictionary words least path d
    obtain ⟨rest, hrest⟩ := readsOnly_loadAll words least paths d
    rw [loadAll, hfirst.bind_iff]
    constructor
    · intro h
      cases first with
      | error e => cases sees_pure_iff.mp h
      | ok v =>
        rw [hrest.bind_iff] at h
        cases rest with
        | error e => cases sees_pure_iff.mp h
        | ok us =>
          cases sees_pure_iff.mp h
          exact .cons hfirst (ih.mp hrest)
    · rintro (_ | ⟨hv, hvs⟩)
      obtain rfl := hfirst.unique hv
      obtain rfl := hrest.unique (ih.mpr hvs)
      rw [hrest.bind_iff]
      rfl

/-- What the dictionary files of a job hold, with what there is to warn about. -/
structure Loads (d : Disk) (paths : List Path) (wordList : Option Path) (settings : Settings)
    (vs : List VettedDictionary) : Prop where
  count : 1 ≤ paths.length ∧ paths.length ≤ 8
  found : ∃ words, d.Sees (chooseWords wordList settings) (.ok words) ∧
    d.Sees (loadAll words (settings.minTypoLength.getD defaultLeast) paths) (.ok vs)

theorem checkFiles_eq_ok {count : Nat} :
    checkFiles count = .ok () ↔ 1 ≤ count ∧ count ≤ 8 := by
  have hcapacity : Artifact.capacity = 8 := rfl
  rw [checkFiles, hcapacity]
  by_cases hnone : count = 0
  · simp [hnone]
  · by_cases hmany : 8 < count <;> simp [hnone, hmany]
    omega

theorem Loads.unique (h : Loads d paths wordList settings vs)
    (h' : Loads d paths wordList settings vs') : vs = vs' := by
  obtain ⟨words, hwords, hvs⟩ := h.found
  obtain ⟨words', hwords', hvs'⟩ := h'.found
  cases hwords.unique hwords'
  exact Except.ok.inj (hvs.unique hvs')

theorem Loads.exists_file (h : Loads d paths wordList settings vs) (hv : v ∈ vs) :
    ∃ path bytes words least, d.read path = .ok bytes ∧
      VettedDictionary.ofBytes path.text bytes.data.toList words least = .ok v := by
  obtain ⟨words, -, hvs⟩ := h.found
  have hfiles := loadAll_eq_ok.mp hvs
  clear h hvs
  induction hfiles with
  | nil => cases hv
  | cons hload _ ih =>
    obtain rfl | hv := List.mem_cons.mp hv
    · obtain ⟨bytes, hread, hbytes⟩ := loadDictionary_eq_ok.mp hload
      exact ⟨_, bytes, words, _, hread, hbytes⟩
    · exact ih hv

theorem Loads.exists_contents (h : Loads d paths wordList settings vs) (hpath : path ∈ paths) :
    ∃ bytes, d.read path = .ok bytes := by
  obtain ⟨words, -, hvs⟩ := h.found
  have hfiles := loadAll_eq_ok.mp hvs
  clear h hvs
  induction hfiles with
  | nil => cases hpath
  | cons hload _ ih =>
    obtain rfl | hpath := List.mem_cons.mp hpath
    · obtain ⟨bytes, hread, -⟩ := loadDictionary_eq_ok.mp hload
      exact ⟨bytes, hread⟩
    · exact ih hpath

theorem Loads.gather (h : Loads d paths wordList settings vs) (deny : Bool) :
    d.Sees (gather paths wordList settings deny) (acceptAll deny vs) := by
  obtain ⟨words, hwords, hvs⟩ := h.found
  rw [Command.gather, checkFiles_eq_ok.mpr h.count]
  exact hwords.bind_iff.mpr (hvs.bind_iff.mpr rfl)

theorem exists_loads (h : d.Sees (gather paths wordList settings deny) (.ok ds)) :
    ∃ vs, Loads d paths wordList settings vs ∧ acceptAll deny vs = .ok ds := by
  rw [gather] at h
  cases hcount : checkFiles paths.length with
  | error e =>
    rw [hcount] at h
    cases sees_pure_iff.mp h
  | ok u =>
    obtain ⟨r, hr⟩ := readsOnly_chooseWords wordList settings d
    simp only [hcount] at h
    rw [hr.bind_iff] at h
    cases r with
    | error e => cases sees_pure_iff.mp h
    | ok words =>
      obtain ⟨r', hr'⟩ :=
        readsOnly_loadAll words (settings.minTypoLength.getD defaultLeast) paths d
      rw [hr'.bind_iff] at h
      cases r' with
      | error e => cases sees_pure_iff.mp h
      | ok vs =>
        exact ⟨vs, ⟨checkFiles_eq_ok.mp hcount, words, hr, hr'⟩, sees_pure_iff.mp h⟩

/-! Warnings. -/

/-- There is something to warn about in one of the dictionaries. -/
def Warned (vs : List VettedDictionary) : Prop := ∃ v ∈ vs, v.warnings ≠ []

theorem length_warnings_pos : 0 < (vs.flatMap (·.warnings)).length ↔ Warned vs := by
  rw [List.length_pos_iff, ne_eq, List.flatMap_eq_nil_iff, Warned]
  simp only [not_forall, exists_prop, ne_eq]

/-- Warnings keep dictionaries from being used only where they are denied. -/
theorem acceptAll_eq_ok : acceptAll deny vs = .ok ds ↔
    ¬ (deny = true ∧ Warned vs) ∧ ds = vs.map (·.dictionary) := by
  have hdenied : (deny && decide (0 < (vs.flatMap (·.warnings)).length)) = true ↔
      deny = true ∧ Warned vs := by
    rw [Bool.and_eq_true, decide_eq_true_eq, length_warnings_pos]
  rw [← hdenied]
  simp only [acceptAll]
  split
  next h =>
    constructor
    · intro he
      cases he
    · rintro ⟨hno, -⟩
      exact (hno h).elim
  next h =>
    rw [Except.ok.injEq]
    exact ⟨fun heq => ⟨h, heq.symm⟩, fun heq => heq.2.symm⟩

/-- The same files hold the same dictionaries, whatever is warned of. -/
theorem map_dictionary_loadAll (h : d.Sees (loadAll words least paths) (.ok vs))
    (h' : d.Sees (loadAll words' least' paths) (.ok vs')) :
    vs.map (·.dictionary) = vs'.map (·.dictionary) := by
  have hvs := loadAll_eq_ok.mp h
  have hvs' := loadAll_eq_ok.mp h'
  clear h h'
  induction hvs generalizing vs' with
  | nil =>
    cases hvs'
    rfl
  | @cons path v _ _ hv _ ih =>
    obtain _ | ⟨hv', hvs'⟩ := hvs'
    rw [List.map_cons, List.map_cons, ih hvs']
    obtain ⟨bytes, hbytes, hv⟩ := loadDictionary_eq_ok.mp hv
    obtain ⟨bytes', hbytes', hv'⟩ := loadDictionary_eq_ok.mp hv'
    rw [hbytes] at hbytes'
    cases hbytes'
    have heq := VettedDictionary.map_dictionary_ofBytes words words' least least' path.text
      bytes.data.toList
    rw [hv, hv'] at heq
    exact congrArg (· :: _) (Except.ok.inj heq)

end Command
end Emend
