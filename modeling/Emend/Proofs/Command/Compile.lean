import Emend.Command.Compile
import Emend.Proofs.Artifact.Join
import Emend.Proofs.Command.Reading
import Emend.Proofs.FileTree.Write

/-! What it takes for a job to write an artifact, and that warnings have no part in what it
writes. -/
namespace Emend

namespace Artifact

/-- What a file is called that holds an artifact and was given no name. -/
def Format.defaultName : Format → String
  | header => "autocorrect_data.h"
  | json => "autocorrect_data.json"
  | binary => "autocorrect_data.bin"

theorem Format.fileBeside_eq (format : Format) (first : Path) :
    format.fileBeside first = (first.parent?.getD ⟨""⟩).join format.defaultName := by
  cases format <;> rfl

/-- The bytes of a file that holds an artifact. -/
inductive Serialized (a : Artifact) : Format → ByteArray → Prop
  | header : Serialized a .header (Header.render a).toUTF8
  | json : Serialized a .json (Json.encode a)
  | binary : Serialized a .binary (Binary.encode a)

theorem serialized_encode (a : Artifact) (format : Format) :
    a.Serialized format (format.encode a) := by
  cases format with
  | header => exact .header
  | json => exact .json
  | binary => exact .binary

end Artifact

namespace CompileJob
variable {job : CompileJob} {format : Artifact.Format} {paths : List Path} {path : Path}

/-- The format of the artifact: what the job asks for, or else the settings, or else a header. -/
def formatUnder (job : CompileJob) (settings : Settings) : Artifact.Format :=
  (job.format.or settings.format).getD .header

/-- The files that a job reads dictionaries from, and the one that it writes. -/
inductive Names (job : CompileJob) (format : Artifact.Format) : List Path → Path → Prop
  | output {path : Path} (given : job.output = some path) : Names job format job.dictionaries path
  | header {paths : List Path} {path : Path} (free : job.output = none)
      (last : job.dictionaries = paths ++ [path]) (ends : path.extension? = some "h") :
      Names job format paths path
  | beside {first : Path} {rest : List Path} (free : job.output = none)
      (dictionaries : job.dictionaries = first :: rest)
      (ends : ∀ last ∈ job.dictionaries.getLast?, last.extension? ≠ some "h") :
      Names job format job.dictionaries ((first.parent?.getD ⟨""⟩).join format.defaultName)

theorem splitOutput_of_output (hgiven : job.output = some path) :
    job.splitOutput = (job.dictionaries, some path) := by
  simp [splitOutput, hgiven]

theorem splitOutput_of_header (hfree : job.output = none)
    (hlast : job.dictionaries = paths ++ [path]) (hends : path.extension? = some "h") :
    job.splitOutput = (paths, some path) := by
  simp [splitOutput, hfree, hlast, hends]

theorem splitOutput_of_beside (hfree : job.output = none)
    (hends : ∀ last ∈ job.dictionaries.getLast?, last.extension? ≠ some "h") :
    job.splitOutput = (job.dictionaries, none) := by
  cases hlast : job.dictionaries.getLast? with
  | none => simp [splitOutput, hfree, hlast]
  | some last => simp [splitOutput, hfree, hlast, hends last hlast]

theorem names_splitOutput (h : job.splitOutput.1 ≠ []) : job.Names format job.splitOutput.1
    (target job.splitOutput.2 format job.splitOutput.1) := by
  cases hgiven : job.output with
  | some path =>
    rw [splitOutput_of_output hgiven]
    exact .output hgiven
  | none =>
    by_cases hends : ∀ last ∈ job.dictionaries.getLast?, last.extension? ≠ some "h"
    · rw [splitOutput_of_beside hgiven hends] at h ⊢
      obtain ⟨first, rest, hcons⟩ : ∃ first rest, job.dictionaries = first :: rest :=
        List.exists_cons_of_ne_nil h
      have htarget : target none format job.dictionaries =
          (first.parent?.getD ⟨""⟩).join format.defaultName := by
        rw [hcons, ← format.fileBeside_eq]
        rfl
      rw [htarget]
      exact .beside hgiven hcons hends
    · obtain ⟨last, hlast, hends⟩ :
          ∃ last ∈ job.dictionaries.getLast?, last.extension? = some "h" := by
        simpa only [not_forall, ne_eq, not_not, exists_prop] using hends
      have hsplit := (List.dropLast_append_getLast? last hlast).symm
      rw [splitOutput_of_header hgiven hsplit hends]
      exact .header hgiven hsplit hends

theorem Names.eq (h : job.Names format paths path) : paths = job.splitOutput.1 ∧
    path = target job.splitOutput.2 format job.splitOutput.1 := by
  cases h with
  | output given =>
    rw [splitOutput_of_output given]
    exact ⟨rfl, rfl⟩
  | header free last ends =>
    rw [splitOutput_of_header free last ends]
    exact ⟨rfl, rfl⟩
  | beside free dictionaries ends =>
    rw [splitOutput_of_beside free ends, dictionaries, ← format.fileBeside_eq]
    exact ⟨rfl, rfl⟩

theorem Names.unique {paths' : List Path} {path' : Path} (h : job.Names format paths path)
    (h' : job.Names format paths' path') : paths' = paths ∧ path' = path := by
  obtain ⟨rfl, rfl⟩ := h.eq
  exact h'.eq

/-- Only a header can be the last of the dictionaries. -/
theorem Names.dictionaries_eq (h : job.Names format paths path)
    (hextension : path.extension? ≠ some "h") : paths = job.dictionaries := by
  cases h with
  | output given => rfl
  | header free last ends => exact (hextension ends).elim
  | beside free dictionaries ends => rfl

/-- Jobs under settings that may differ in what there is to warn of and whether that is denied, and
in nothing else. -/
structure Alike (job job' : CompileJob) (settings settings' : Settings) : Prop where
  dictionaries : job'.dictionaries = job.dictionaries
  output : job'.output = job.output
  format : job'.format = job.format
  setting : settings'.format = settings.format

section
variable {job' : CompileJob} {settings settings' : Settings}

theorem Alike.formatUnder_eq (h : Alike job job' settings settings') :
    job'.formatUnder settings' = job.formatUnder settings := by
  rw [formatUnder, formatUnder, h.format, h.setting]

theorem Alike.names (h : Alike job job' settings settings')
    (hnames : job.Names format paths path) : job'.Names format paths path := by
  cases hnames with
  | output given => exact h.dictionaries ▸ .output (h.output.trans given)
  | header free last ends =>
    exact .header (h.output.trans free) (h.dictionaries.trans last) ends
  | beside free dictionaries ends =>
    rw [← h.dictionaries] at dictionaries ends ⊢
    exact .beside (h.output.trans free) dictionaries ends

end

end CompileJob

namespace Command
open CompileJob (target)
variable {d d' : Disk} {job job' : CompileJob} {settings settings' : Settings}
  {paths paths' : List Path} {path path' : Path} {wordList wordList' : Option Path}
  {vs vs' : List VettedDictionary} {a a' : Artifact} {report : String} {e : CommandError}

/-- A job has everything that it takes to write `a` to `path`. -/
structure Ready (d : Disk) (job : CompileJob) (settings : Settings) (paths : List Path)
    (path : Path) (vs : List VettedDictionary) (a : Artifact) : Prop where
  names : job.Names (job.formatUnder settings) paths path
  loads : Loads d paths job.wordList settings vs
  allowed : ¬ ((job.denyWarnings || settings.denyWarnings) = true ∧ Warned vs)
  compiled : Artifact.compile (vs.map (·.dictionary)) = .ok a

theorem run_write (d : Disk) (p : Path) (contents : ByteArray) :
    (FileAccess.write p contents : StateM Disk _).run d = match d.write p contents with
      | .ok d' => (.ok (), d')
      | .error e => (.error e, d) := rfl

theorem compile_of_loads (hnames : job.Names (job.formatUnder settings) paths path)
    (h : Loads d paths job.wordList settings vs) :
    (compile job settings : StateM Disk _).run d =
      match acceptAll (job.denyWarnings || settings.denyWarnings) vs with
      | .error e => (.error e, d)
      | .ok ds => match Artifact.compile ds with
        | .error e => (.error (.compile e), d)
        | .ok a => match d.write path ((job.formatUnder settings).encode a) with
          | .error e => (.error (.unwritable path e), d)
          | .ok d' => (.ok (compileReport a path), d') := by
  obtain ⟨rfl, rfl⟩ := hnames.eq
  have hgather := h.gather (job.denyWarnings || settings.denyWarnings)
  simp only [compile]
  rw [hgather.run_bind]
  cases acceptAll (job.denyWarnings || settings.denyWarnings) vs with
  | error e => rfl
  | ok ds =>
    dsimp only
    cases Artifact.compile ds with
    | error e => rfl
    | ok a =>
      dsimp only
      rw [StateT.run_bind, run_write, CompileJob.formatUnder]
      cases d.write (target job.splitOutput.2 _ job.splitOutput.1) _ <;> rfl

/-- Without dictionaries to compile, a job fails before it writes. -/
theorem compile_eq_error_or_loads (d : Disk) (job : CompileJob) (settings : Settings) :
    (∃ e, d.Sees (compile job settings) (.error e)) ∨
      ∃ paths path vs, job.Names (job.formatUnder settings) paths path ∧
        Loads d paths job.wordList settings vs := by
  obtain ⟨r, hr⟩ := readsOnly_gather job.splitOutput.1 job.wordList settings
    (job.denyWarnings || settings.denyWarnings) d
  cases r with
  | error e =>
    left
    refine ⟨e, ?_⟩
    simp only [compile]
    exact hr.bind_iff.mpr rfl
  | ok ds =>
    right
    obtain ⟨vs, hvs, -⟩ := exists_loads hr
    have hsome : job.splitOutput.1 ≠ [] := List.ne_nil_of_length_pos hvs.count.1
    exact ⟨_, _, vs, CompileJob.names_splitOutput hsome, hvs⟩

theorem compile_eq_ok : (compile job settings : StateM Disk _).run d = (.ok report, d') ↔
    ∃ paths path vs a, Ready d job settings paths path vs a ∧
      d.write path ((job.formatUnder settings).encode a) = .ok d' ∧
      report = compileReport a path := by
  constructor
  · intro h
    obtain ⟨e, he⟩ | ⟨paths, path, vs, hnames, hvs⟩ := compile_eq_error_or_loads d job settings
    · cases he.symm.trans h
    rw [compile_of_loads hnames hvs] at h
    split at h
    next => cases h
    next ds hds =>
      obtain ⟨hallowed, rfl⟩ := acceptAll_eq_ok.mp hds
      split at h
      next => cases h
      next a ha =>
        split at h
        next => cases h
        next d₁ hwrite =>
          cases h
          exact ⟨paths, path, vs, a, ⟨hnames, hvs, hallowed, ha⟩, hwrite, rfl⟩
  · rintro ⟨paths, path, vs, a, hready, hwrite, rfl⟩
    rw [compile_of_loads hready.names hready.loads, acceptAll_eq_ok.mpr ⟨hready.allowed, rfl⟩]
    dsimp only
    rw [hready.compiled]
    dsimp only
    rw [hwrite]

/-- A job that fails has changed nothing. -/
theorem eq_of_compile_eq_error
    (h : (compile job settings : StateM Disk _).run d = (.error e, d')) : d' = d := by
  obtain ⟨e', he⟩ | ⟨paths, path, vs, hnames, hvs⟩ := compile_eq_error_or_loads d job settings
  · exact (congrArg Prod.snd (he.symm.trans h)).symm
  rw [compile_of_loads hnames hvs] at h
  -- Every failure after the dictionaries are loaded, that of writing too, leaves the disk.
  split at h
  next => cases h; rfl
  next =>
    split at h
    next => cases h; rfl
    next =>
      split at h
      next => cases h; rfl
      next => cases h

/-! Warnings. -/

theorem Loads.map_dictionary (h : Loads d paths wordList settings vs)
    (h' : Loads d paths wordList' settings' vs') :
    vs'.map (·.dictionary) = vs.map (·.dictionary) := by
  obtain ⟨words, -, hvs⟩ := h.found
  obtain ⟨words', -, hvs'⟩ := h'.found
  exact map_dictionary_loadAll hvs' hvs

/-- Alike jobs that both have what it takes write the same. -/
theorem Ready.eq (halike : CompileJob.Alike job job' settings settings')
    (h : Ready d job settings paths path vs a)
    (h' : Ready d job' settings' paths' path' vs' a') :
    paths' = paths ∧ path' = path ∧ a' = a := by
  have hnames := h'.names
  rw [halike.formatUnder_eq] at hnames
  obtain ⟨rfl, rfl⟩ := (halike.names h.names).unique hnames
  have ha := h'.compiled
  rw [h.loads.map_dictionary h'.loads, h.compiled] at ha
  exact ⟨rfl, rfl, (Except.ok.inj ha).symm⟩

/-- Where warnings are denied, they are all that keeps a job that has what it takes from writing. -/
theorem Ready.error_iff_warned (halike : CompileJob.Alike job job' settings settings')
    (h : Ready d job settings paths path vs a)
    (hwrite : d.write path ((job.formatUnder settings).encode a) = .ok d')
    (hloads : Loads d paths job'.wordList settings' vs)
    (hdeny : (job'.denyWarnings || settings'.denyWarnings) = true) :
    (∃ e d₂, (compile job' settings' : StateM Disk _).run d = (.error e, d₂)) ↔ Warned vs := by
  have hnames := halike.names h.names
  rw [← halike.formatUnder_eq] at hnames hwrite
  constructor
  · rintro ⟨e, d₂, he⟩
    by_contra hquiet
    have hready : Ready d job' settings' paths path vs a :=
      ⟨hnames, hloads, fun hdenied => hquiet hdenied.2, h.compiled⟩
    cases he.symm.trans (compile_eq_ok.mpr ⟨paths, path, vs, a, hready, hwrite, rfl⟩)
  · intro hwarned
    rw [compile_of_loads hnames hloads]
    cases haccept : acceptAll (job'.denyWarnings || settings'.denyWarnings) vs with
    | error e => exact ⟨e, d, rfl⟩
    | ok ds => exact ((acceptAll_eq_ok.mp haccept).1 ⟨hdeny, hwarned⟩).elim

/-- What is warned of has no part in what is compiled. Whatever the words and the least length, a
source gives the same dictionary or the same error. So two jobs that differ in nothing else write
the same artifact to the same file and report the same if both succeed, and to deny warnings makes
a job fail just if there are any. -/
theorem compile_indifferent :
    (∀ (name : String) (source : List UInt8) (words words' : WordList) (least least' : Nat),
      (VettedDictionary.ofBytes name source words least).map (·.dictionary) =
        (VettedDictionary.ofBytes name source words' least').map (·.dictionary)) ∧
    (∀ (d d₁ d₂ : Disk) (job job' : CompileJob) (settings settings' : Settings)
      (report report' : String), CompileJob.Alike job job' settings settings' →
      (compile job settings : StateM Disk _).run d = (.ok report, d₁) →
      (compile job' settings' : StateM Disk _).run d = (.ok report', d₂) →
      report' = report ∧ d₂ = d₁ ∧ ∃ paths path vs vs' a,
        Ready d job settings paths path vs a ∧ Ready d job' settings' paths path vs' a ∧
        d.write path ((job.formatUnder settings).encode a) = .ok d₁) ∧
    ∀ (d d' : Disk) (job : CompileJob) (settings : Settings) (report : String),
      (compile job settings : StateM Disk _).run d = (.ok report, d') →
      ∀ deny deny' : Bool, (deny || deny') = true →
      ((∃ e d₂, (compile { job with denyWarnings := deny }
          { settings with denyWarnings := deny' } : StateM Disk _).run d = (.error e, d₂)) ↔
        ∃ paths path vs, job.Names (job.formatUnder settings) paths path ∧
          Loads d paths job.wordList settings vs ∧ Warned vs) := by
  refine ⟨fun name source words words' least least' =>
    VettedDictionary.map_dictionary_ofBytes words words' least least' name source, ?_, ?_⟩
  · intro d d₁ d₂ job job' settings settings' report report' halike h h'
    obtain ⟨paths, path, vs, a, hready, hwrite, rfl⟩ := compile_eq_ok.mp h
    obtain ⟨_, _, vs', _, hready', hwrite', rfl⟩ := compile_eq_ok.mp h'
    obtain ⟨rfl, rfl, rfl⟩ := hready.eq halike hready'
    rw [halike.formatUnder_eq, hwrite] at hwrite'
    cases hwrite'
    exact ⟨rfl, rfl, _, _, vs, vs', _, hready, hready', hwrite⟩
  · intro d d' job settings report h deny deny' hdeny
    obtain ⟨paths, path, vs, a, hready, hwrite, -⟩ := compile_eq_ok.mp h
    have halike : CompileJob.Alike job { job with denyWarnings := deny } settings
      { settings with denyWarnings := deny' } := ⟨rfl, rfl, rfl, rfl⟩
    have hloads : Loads d paths job.wordList { settings with denyWarnings := deny' } vs :=
      ⟨hready.loads.count, hready.loads.found⟩
    rw [hready.error_iff_warned halike hwrite hloads hdeny]
    constructor
    · intro hwarned
      exact ⟨paths, path, vs, hready.names, hready.loads, hwarned⟩
    · rintro ⟨paths', path', vs', hnames, hloads', hwarned⟩
      obtain ⟨rfl, -⟩ := hready.names.unique hnames
      rwa [hready.loads.unique hloads']

/-! Files of which one is a dictionary and one a list of no words. -/

def sampleDisk : Disk where
  root := .directory [("hte.txt", .file "hte -> the\n".toUTF8), ("words.txt", .file .empty)]
  here := []

def sampleJob : CompileJob where
  dictionaries := [⟨"hte.txt"⟩]
  output := some ⟨"out.json"⟩
  format := some .json
  wordList := some ⟨"words.txt"⟩
  denyWarnings := false

theorem read_sample : sampleDisk.read ⟨"hte.txt"⟩ = .ok "hte -> the\n".toUTF8 := by
  have hparts : sampleDisk.parts ⟨"hte.txt"⟩ = .ok ([], ["hte.txt"]) :=
    Disk.parts_eq_ok.mpr ⟨by decide, rfl, rfl⟩
  rw [Disk.read, hparts]
  rfl

theorem writable_sample : sampleDisk.writable ⟨"out.json"⟩ = .ok ["out.json"] := by
  have hparts : sampleDisk.parts ⟨"out.json"⟩ = .ok ([], ["out.json"]) :=
    Disk.parts_eq_ok.mpr ⟨by decide, rfl, rfl⟩
  rw [Disk.writable, hparts]
  rfl

theorem words_sample : sampleDisk.Sees (chooseWords sampleJob.wordList {}) (.ok .empty) := by
  have hparts : sampleDisk.parts ⟨"words.txt"⟩ = .ok ([], ["words.txt"]) :=
    Disk.parts_eq_ok.mpr ⟨by decide, rfl, rfl⟩
  have hread : sampleDisk.read ⟨"words.txt"⟩ = .ok .empty := by
    rw [Disk.read, hparts]
    rfl
  have hempty : WordList.ofBytes? ByteArray.empty.data.toList = some .empty := by decide +kernel
  exact (loadWords_eq_ok.mpr ⟨_, hread, hempty⟩).bind_iff.mpr rfl

section
variable {source : Path} {words : WordList} {place : List String}

/-- The dictionary is the same whatever there is to warn of. -/
theorem exists_loads_of_read (hread : d.read source = .ok "hte -> the\n".toUTF8)
    (hwords : d.Sees (chooseWords wordList settings) (.ok words)) :
    ∃ v, Loads d [source] wordList settings [v] ∧
      v.dictionary = ⟨source.text, [⟨"hte", "the"⟩]⟩ := by
  have heq := VettedDictionary.map_dictionary_ofBytes .empty words 5
    (settings.minTypoLength.getD defaultLeast) source.text "hte -> the\n".toUTF8.data.toList
  cases hv : VettedDictionary.ofBytes source.text "hte -> the\n".toUTF8.data.toList words
      (settings.minTypoLength.getD defaultLeast) with
  | error e =>
    rw [hv] at heq
    cases heq
  | ok v =>
    rw [hv] at heq
    have hload := loadDictionary_eq_ok.mpr ⟨_, hread, hv⟩
    have hcount : 1 ≤ [source].length ∧ [source].length ≤ 8 := by simp
    exact ⟨v, ⟨hcount, words, hwords, loadAll_eq_ok.mpr (.cons hload .nil)⟩,
      (Except.ok.inj heq).symm⟩

theorem exists_compile_of_read (job : CompileJob) (settings : Settings)
    (hread : d.read source = .ok "hte -> the\n".toUTF8)
    (hwords : d.Sees (chooseWords job.wordList settings) (.ok words))
    (hnames : job.Names (job.formatUnder settings) [source] path)
    (hdeny : (job.denyWarnings || settings.denyWarnings) = false)
    (hcompiled : (Artifact.compile [⟨source.text, [⟨"hte", "the"⟩]⟩]).isOk = true)
    (hplace : d.writable path = .ok place) :
    ∃ report d', (compile job settings : StateM Disk _).run d = (.ok report, d') := by
  obtain ⟨v, hloads, hv⟩ := exists_loads_of_read hread hwords
  obtain ⟨a, ha⟩ := exists_of_isOk hcompiled
  rw [← hv, ← List.map_singleton] at ha
  have hready : Ready d job settings [source] path [v] a := ⟨hnames, hloads, by simp [hdeny], ha⟩
  obtain ⟨d', hwrite⟩ := Disk.exists_write hplace ((job.formatUnder settings).encode a)
  exact ⟨_, d', compile_eq_ok.mpr ⟨_, _, _, a, hready, hwrite, rfl⟩⟩

end

theorem exists_compile_sample (job : CompileJob) (settings : Settings) {words : WordList}
    (halike : CompileJob.Alike sampleJob job {} settings)
    (hdeny : (job.denyWarnings || settings.denyWarnings) = false)
    (hwords : sampleDisk.Sees (chooseWords job.wordList settings) (.ok words)) :
    ∃ report d', (compile job settings : StateM Disk _).run sampleDisk = (.ok report, d') := by
  have hnames : sampleJob.Names (job.formatUnder settings) [⟨"hte.txt"⟩] ⟨"out.json"⟩ :=
    .output rfl
  exact exists_compile_of_read job settings read_sample hwords (halike.names hnames) hdeny
    (by decide +kernel) writable_sample

/-- A short typo is warned of unless the settings ask for less. -/
theorem compile_indifferent_sample : ∃ report d₁,
    (compile sampleJob {} : StateM Disk _).run sampleDisk = (.ok report, d₁) ∧
    (compile { sampleJob with wordList := none } { minTypoLength := some 0 } : StateM Disk _).run
      sampleDisk = (.ok report, d₁) ∧
    ∃ e d₂, (compile { sampleJob with denyWarnings := true } {} : StateM Disk _).run sampleDisk =
      (.error e, d₂) := by
  obtain ⟨report, d₁, h⟩ := exists_compile_sample sampleJob {} ⟨rfl, rfl, rfl, rfl⟩ rfl
    words_sample
  have halike : CompileJob.Alike sampleJob { sampleJob with wordList := none } {}
    { minTypoLength := some 0 } := ⟨rfl, rfl, rfl, rfl⟩
  obtain ⟨report', d₂, h'⟩ := exists_compile_sample _ _ halike rfl (sees_pure _ _)
  obtain ⟨hreport, hd, -⟩ := compile_indifferent.2.1 _ _ _ _ _ _ _ _ _ halike h h'
  have hload : sampleDisk.Sees (loadDictionary .empty defaultLeast ⟨"hte.txt"⟩)
      (.ok ⟨⟨"hte.txt", [⟨"hte", "the"⟩]⟩, [.short 1 "hte" defaultLeast]⟩) :=
    loadDictionary_eq_ok.mpr ⟨_, read_sample, rfl⟩
  have hloads : Loads sampleDisk [⟨"hte.txt"⟩] sampleJob.wordList {} _ :=
    ⟨by decide, .empty, words_sample, loadAll_eq_ok.mpr (.cons hload .nil)⟩
  refine ⟨report, d₁, h, ?_, ?_⟩
  · rw [h', hreport, hd]
  · exact (compile_indifferent.2.2 _ _ _ _ _ h true false rfl).mpr
      ⟨_, _, _, .output rfl, hloads, _, List.mem_singleton_self _, List.cons_ne_nil _ _⟩

end Command
end Emend
