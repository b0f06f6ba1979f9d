import Emend.Command.Run
import Emend.Proofs.Command.Inspect
import Emend.Proofs.FileTree.Beside

/-! What running a command line does to files: nothing, or one file is written. -/
namespace Emend

variable {d d' : Disk} {usual : Path} {args : Arguments} {settings : Settings}
  {report : String} {e : CommandError}

/-- The job that a command line describes. -/
def Arguments.job (args : Arguments) : CompileJob where
  dictionaries := args.dictionaries
  output := args.output
  format := args.format
  wordList := args.wordList
  denyWarnings := args.denyWarnings

/-- A name with the ending of a header and something before it. -/
def HeaderName (name : String) : Prop := ∃ stem, stem ≠ "" ∧ name = stem ++ ".h"

/-- The entry that a job writes, by the directory it is in and its name: that of the output, or of
the header at the end of the dictionaries, or one in the directory of the first dictionary. -/
inductive CompileJob.Lands (d : Disk) (job : CompileJob) (format : Artifact.Format) :
    List Path → Path → List String → String → Prop
  | output {path : Path} {dir : List String} {name : String} (given : job.output = some path)
      (lies : d.Lies path dir name) : Lands d job format job.dictionaries path dir name
  | header {paths : List Path} {path : Path} {dir : List String} {name : String}
      (free : job.output = none) (last : job.dictionaries = paths ++ [path])
      (lies : d.Lies path dir name) (ends : HeaderName name) :
      Lands d job format paths path dir name
  | beside {first path : Path} {rest : List Path} {dir : List String} {own : String}
      (free : job.output = none) (dictionaries : job.dictionaries = first :: rest)
      (ends : ∀ last ∈ job.dictionaries.getLast?,
        ∃ dir name, d.Lies last dir name ∧ ¬ HeaderName name)
      (source : d.Lies first dir own) (lies : d.Lies path dir format.defaultName) :
      Lands d job format job.dictionaries path dir format.defaultName

theorem Disk.Lies.headerName {path : Path} {dir : List String} {name : String}
    (h : d.Lies path dir name) : path.extension? = some "h" ↔ HeaderName name := by
  have hdot : '.' ∉ "h".toList := by decide
  exact h.extension?_eq_some hdot

theorem Artifact.Format.slash_not_mem_defaultName (format : Artifact.Format) :
    '/' ∉ format.defaultName.toList := by
  cases format <;> decide

theorem Settings.readsOnly_load (given : Option Path) (usual : Path) :
    ReadsOnly (Settings.load given usual : StateM Disk _) := by
  unfold Settings.load
  split
  · refine (ReadsOnly.read _).bind fun r => ?_
    split <;> exact ReadsOnly.pure _
  · refine (ReadsOnly.read usual).bind fun r => ?_
    split
    · exact ReadsOnly.pure _
    · split <;> exact ReadsOnly.pure _

namespace Command

theorem Ready.lands {job : CompileJob} {paths : List Path} {path : Path}
    {vs : List VettedDictionary} {a : Artifact} {dir : List String} {name : String}
    (h : Ready d job settings paths path vs a) (hlies : d.Lies path dir name) :
    job.Lands d (job.formatUnder settings) paths path dir name := by
  have hsource : ∀ source ∈ paths, ∃ dir own, d.Lies source dir own := by
    intro source hsource
    obtain ⟨bytes, hread⟩ := h.loads.exists_contents hsource
    exact Disk.lies_of_read hread
  cases h.names with
  | output given => exact .output given hlies
  | header free last ends => exact .header free last hlies (hlies.headerName.mp ends)
  | @beside first rest free dictionaries ends =>
    obtain ⟨dir', own, hfirst⟩ := hsource first (by simp [dictionaries])
    obtain ⟨rfl, rfl⟩ := hfirst.join_parent (Artifact.Format.slash_not_mem_defaultName _) hlies
    refine .beside free dictionaries (fun last hlast => ?_) hfirst hlies
    obtain ⟨dir', name, hlies'⟩ := hsource last (List.mem_of_getLast? hlast)
    exact ⟨dir', name, hlies', fun hheader => ends last hlast (hlies'.headerName.mpr hheader)⟩

theorem run_of_settings (h : d.Sees (Settings.load args.config usual) (.ok settings)) :
    (run usual args : StateM Disk _).run d = match args.action with
      | .compile => (compile args.job settings : StateM Disk _).run d
      | .inspect => (inspect args.dictionaries args.wordList settings : StateM Disk _).run d := by
  rw [run, h.run_bind]
  cases args.action <;> rfl

/-- Without settings nothing is done. -/
theorem run_of_settings_error {why : SettingsError}
    (h : d.Sees (Settings.load args.config usual) (.error why)) :
    (run usual args : StateM Disk _).run d = (.error (.settings why), d) := by
  rw [run, h.run_bind]
  rfl

/-- Files stay as they are if a command fails, whatever the reason, and if it inspects. A command
that compiles writes one file: the one it was given, or the header at the end of the dictionaries,
or one of the default name in the directory of the first of them. This file holds the artifact of
the dictionaries as they were found before, in the format that was chosen. It is written whenever
there is such an artifact and a place for it. -/
theorem run_frame {r : Except CommandError String}
    (h : (run usual args : StateM Disk _).run d = (r, d')) :
    ((∃ e, r = .error e) → d' = d) ∧ (args.action = .inspect → d' = d) ∧
    (args.action = .compile → (∃ report, r = .ok report) →
      ∃ settings paths path vs a dir name contents,
        d.Sees (Settings.load args.config usual) (.ok settings) ∧
        Ready d args.job settings paths path vs a ∧
        args.job.Lands d (args.job.formatUnder settings) paths path dir name ∧
        a.Serialized (args.job.formatUnder settings) contents ∧
        d.Wrote path dir name contents d') ∧
    (args.action = .compile → ∀ settings paths path vs a place,
      d.Sees (Settings.load args.config usual) (.ok settings) →
      Ready d args.job settings paths path vs a → d.writable path = .ok place →
      ∃ report, r = .ok report) := by
  obtain ⟨loaded, hload⟩ := Settings.readsOnly_load args.config usual d
  cases loaded with
  | error why =>
    rw [run_of_settings_error hload] at h
    cases h
    refine ⟨fun _ => rfl, fun _ => rfl, fun _ ⟨report, hok⟩ => (by cases hok), ?_⟩
    intro _ settings paths path vs a place hload'
    cases hload.unique hload'
  | ok settings =>
    rw [run_of_settings hload] at h
    cases haction : args.action with
    | inspect =>
      rw [haction] at h
      obtain ⟨rfl, -⟩ := (readsOnly_inspect args.dictionaries args.wordList settings).sees h
      exact ⟨fun _ => rfl, fun _ => rfl, fun hcompile => (by cases hcompile),
        fun hcompile => (by cases hcompile)⟩
    | compile =>
      rw [haction] at h
      refine ⟨?_, fun hinspect => (by cases hinspect), ?_, ?_⟩
      · rintro ⟨e, rfl⟩
        exact eq_of_compile_eq_error h
      · rintro - ⟨report, rfl⟩
        obtain ⟨paths, path, vs, a, hready, hwrite, -⟩ := compile_eq_ok.mp h
        obtain ⟨dir, name, hwrote⟩ := Disk.exists_wrote hwrite
        exact ⟨settings, paths, path, vs, a, dir, name, _, hload, hready,
          hready.lands hwrote.leads.toLies, a.serialized_encode _, hwrote⟩
      · intro _ settings' paths path vs a place hload' hready hplace
        cases hload.unique hload'
        obtain ⟨d₁, hwrite⟩ :=
          Disk.exists_write hplace ((args.job.formatUnder settings).encode a)
        have hok := compile_eq_ok.mpr ⟨paths, path, vs, a, hready, hwrite, rfl⟩
        exact ⟨_, congrArg Prod.fst (h.symm.trans hok)⟩

/-! A run that is told where to write, on a disk without settings; and runs that are not, on a disk
with settings that ask for JSON. -/

def sampleArguments : Arguments where
  action := .compile
  config := none
  verbose := false
  quiet := false
  dictionaries := sampleJob.dictionaries
  output := sampleJob.output
  format := sampleJob.format
  wordList := sampleJob.wordList
  denyWarnings := sampleJob.denyWarnings

def nestedDisk : Disk where
  root := .directory [
    ("config.json", .file "\x7b\"format\": \"json\"\x7d\n".toUTF8),
    ("lists", .directory [("hte.txt", .file "hte -> the\n".toUTF8)])]
  here := []

def nestedArguments : Arguments where
  action := .compile
  config := none
  verbose := false
  quiet := false
  dictionaries := [⟨"lists/./hte.txt"⟩]
  output := none
  format := none
  wordList := none
  denyWarnings := false

def headerArguments : Arguments :=
  { nestedArguments with
    dictionaries := [⟨"lists/./hte.txt"⟩, ⟨"out.h"⟩]
    format := some .header }

theorem no_settings_sample :
    sampleDisk.Sees (FileAccess.read ⟨"config.json"⟩) (.error (.opening .notFound)) := by
  have hparts : sampleDisk.parts ⟨"config.json"⟩ = .ok ([], ["config.json"]) :=
    Disk.parts_eq_ok.mpr ⟨by decide, rfl, rfl⟩
  have hread : sampleDisk.read ⟨"config.json"⟩ = .error (.opening .notFound) := by
    rw [Disk.read, hparts]
    rfl
  rw [← hread]
  exact sees_read _ _

theorem settings_nested :
    nestedDisk.Sees (Settings.load none ⟨"config.json"⟩) (.ok { format := some .json }) := by
  have hparts : nestedDisk.parts ⟨"config.json"⟩ = .ok ([], ["config.json"]) :=
    Disk.parts_eq_ok.mpr ⟨by decide, rfl, rfl⟩
  have hread : nestedDisk.read ⟨"config.json"⟩ =
      .ok "\x7b\"format\": \"json\"\x7d\n".toUTF8 := by
    rw [Disk.read, hparts]
    rfl
  have hsees := sees_read nestedDisk ⟨"config.json"⟩
  rw [hread] at hsees
  exact hsees.bind_iff.mpr rfl

theorem read_nested : nestedDisk.read ⟨"lists/./hte.txt"⟩ = .ok "hte -> the\n".toUTF8 := by
  have hparts : nestedDisk.parts ⟨"lists/./hte.txt"⟩ = .ok ([], ["lists", ".", "hte.txt"]) :=
    Disk.parts_eq_ok.mpr ⟨by decide, rfl, rfl⟩
  rw [Disk.read, hparts]
  rfl

theorem writable_beside : nestedDisk.writable ⟨"lists/autocorrect_data.json"⟩ =
    .ok ["lists", "autocorrect_data.json"] := by
  have hparts : nestedDisk.parts ⟨"lists/autocorrect_data.json"⟩ =
      .ok ([], ["lists", "autocorrect_data.json"]) :=
    Disk.parts_eq_ok.mpr ⟨by decide, rfl, rfl⟩
  rw [Disk.writable, hparts]
  rfl

theorem writable_header : nestedDisk.writable ⟨"out.h"⟩ = .ok ["out.h"] := by
  have hparts : nestedDisk.parts ⟨"out.h"⟩ = .ok ([], ["out.h"]) :=
    Disk.parts_eq_ok.mpr ⟨by decide, rfl, rfl⟩
  rw [Disk.writable, hparts]
  rfl

/-- What is written of a dictionary whose contents are known. -/
theorem Ready.wrote_sample {job : CompileJob} {paths : List Path} {source path path' : Path}
    {vs : List VettedDictionary} {a : Artifact} {dir dir' : List String} {name name' : String}
    {contents : ByteArray} (h : Ready d job settings paths path vs a)
    (hwrote : d.Wrote path dir name contents d')
    (hnames : job.Names (job.formatUnder settings) [source] path') (hlies : d.Lies path' dir' name')
    (hread : d.read source = .ok "hte -> the\n".toUTF8) :
    Artifact.compile [⟨source.text, [⟨"hte", "the"⟩]⟩] = .ok a ∧
      d.Wrote path' dir' name' contents d' := by
  obtain ⟨rfl, rfl⟩ := h.names.unique hnames
  obtain ⟨rfl, rfl⟩ := hlies.unique hwrote.leads.toLies
  obtain ⟨words, hwords, -⟩ := h.loads.found
  obtain ⟨v, hloads, hv⟩ := exists_loads_of_read hread hwords
  have hcompiled := h.compiled
  rw [h.loads.unique hloads, List.map_singleton, hv] at hcompiled
  exact ⟨hcompiled, hwrote⟩

/-- A file is written where it was asked for, or beside the dictionary, or over the header at the
end of the dictionaries; and none without the settings that were named. -/
theorem run_frame_sample :
    (∃ report d' a,
      (run ⟨"config.json"⟩ sampleArguments : StateM Disk _).run sampleDisk = (.ok report, d') ∧
      Artifact.compile [⟨"hte.txt", [⟨"hte", "the"⟩]⟩] = .ok a ∧
      sampleDisk.Wrote ⟨"out.json"⟩ [] "out.json" (Artifact.Json.encode a) d') ∧
    (∃ report d' a,
      (run ⟨"config.json"⟩ nestedArguments : StateM Disk _).run nestedDisk = (.ok report, d') ∧
      Artifact.compile [⟨"lists/./hte.txt", [⟨"hte", "the"⟩]⟩] = .ok a ∧
      nestedDisk.Wrote ⟨"lists/autocorrect_data.json"⟩ ["lists"] "autocorrect_data.json"
        (Artifact.Json.encode a) d') ∧
    (∃ report d' a,
      (run ⟨"config.json"⟩ headerArguments : StateM Disk _).run nestedDisk = (.ok report, d') ∧
      Artifact.compile [⟨"lists/./hte.txt", [⟨"hte", "the"⟩]⟩] = .ok a ∧
      nestedDisk.Wrote ⟨"out.h"⟩ [] "out.h" (Artifact.Header.render a).toUTF8 d') ∧
    ∃ e d', (run ⟨"config.json"⟩ { sampleArguments with config := some ⟨"config.json"⟩ } :
      StateM Disk _).run sampleDisk = (.error e, d') ∧ d' = sampleDisk := by
  refine ⟨?_, ?_, ?_, ?_⟩
  · have hload : sampleDisk.Sees (Settings.load sampleArguments.config ⟨"config.json"⟩) (.ok {}) :=
      no_settings_sample.bind_iff.mpr rfl
    obtain ⟨report, d', hcompile⟩ := exists_compile_sample sampleJob {} ⟨rfl, rfl, rfl, rfl⟩ rfl
      words_sample
    have hrun := (run_of_settings hload).trans hcompile
    obtain ⟨settings, paths, path, vs, a, dir, name, contents, hload', hready, -, hbytes, hwrote⟩ :=
      (run_frame hrun).2.2.1 rfl ⟨report, rfl⟩
    cases hload.unique hload'
    have hlies : sampleDisk.Lies ⟨"out.json"⟩ [] "out.json" :=
      Disk.lies_of_writable writable_sample
    obtain ⟨ha, hwrote⟩ := hready.wrote_sample hwrote (.output rfl) hlies read_sample
    have hjson : a.Serialized .json contents := hbytes
    cases hjson
    exact ⟨report, d', a, hrun, ha, hwrote⟩
  · have hends : ∀ last ∈ nestedArguments.job.dictionaries.getLast?,
        last.extension? ≠ some "h" := by
      rintro last ⟨⟩
      decide
    have hnames : nestedArguments.job.Names .json [⟨"lists/./hte.txt"⟩]
        ⟨"lists/autocorrect_data.json"⟩ := .beside rfl rfl hends
    obtain ⟨report, d', hcompile⟩ := exists_compile_of_read _ { format := some .json } read_nested
      (sees_pure _ _) hnames rfl (by decide +kernel) writable_beside
    have hrun : (run ⟨"config.json"⟩ nestedArguments : StateM Disk _).run nestedDisk = _ :=
      (run_of_settings settings_nested).trans hcompile
    obtain ⟨settings, paths, path, vs, a, dir, name, contents, hload, hready, -, hbytes, hwrote⟩ :=
      (run_frame hrun).2.2.1 rfl ⟨report, rfl⟩
    cases settings_nested.unique hload
    have hlies : nestedDisk.Lies ⟨"lists/autocorrect_data.json"⟩ ["lists"]
        "autocorrect_data.json" := Disk.lies_of_writable writable_beside
    obtain ⟨ha, hwrote⟩ := hready.wrote_sample hwrote hnames hlies read_nested
    have hjson : a.Serialized .json contents := hbytes
    cases hjson
    exact ⟨report, d', a, hrun, ha, hwrote⟩
  · have hnames : headerArguments.job.Names .header [⟨"lists/./hte.txt"⟩] ⟨"out.h"⟩ :=
      .header rfl rfl (by decide)
    obtain ⟨report, d', hcompile⟩ := exists_compile_of_read _ { format := some .json } read_nested
      (sees_pure _ _) hnames rfl (by decide +kernel) writable_header
    have hrun : (run ⟨"config.json"⟩ headerArguments : StateM Disk _).run nestedDisk = _ :=
      (run_of_settings settings_nested).trans hcompile
    obtain ⟨settings, paths, path, vs, a, dir, name, contents, hload, hready, -, hbytes, hwrote⟩ :=
      (run_frame hrun).2.2.1 rfl ⟨report, rfl⟩
    cases settings_nested.unique hload
    have hlies : nestedDisk.Lies ⟨"out.h"⟩ [] "out.h" := Disk.lies_of_writable writable_header
    obtain ⟨ha, hwrote⟩ := hready.wrote_sample hwrote hnames hlies read_nested
    have hheader : a.Serialized .header contents := hbytes
    cases hheader
    exact ⟨report, d', a, hrun, ha, hwrote⟩
  · have hload : sampleDisk.Sees (Settings.load (some ⟨"config.json"⟩) ⟨"config.json"⟩)
        (.error (.unreadable ⟨"config.json"⟩ (.unreadable .notFound))) :=
      no_settings_sample.bind_iff.mpr rfl
    have hrun : (run ⟨"config.json"⟩ { sampleArguments with config := some ⟨"config.json"⟩ } :
        StateM Disk _).run sampleDisk = (.error (.settings _), sampleDisk) :=
      run_of_settings_error hload
    exact ⟨_, _, hrun, (run_frame hrun).1 ⟨_, rfl⟩⟩

end Command
end Emend
