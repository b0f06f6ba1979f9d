import Emend.Command.Inspect
import Emend.Proofs.Artifact.Json
import Emend.Proofs.Artifact.Lengths
import Emend.Proofs.Command.Compile
import Emend.Proofs.Dictionary.Loading

/-! What is reported of an artifact is what is reported of the dictionaries that it was compiled
from. -/
namespace Emend

/-- What every report says of a dictionary. -/
structure Figures where
  name : String
  pairs : Nat
  size : Nat
  width : Nat
  shortest : Nat
  longest : Nat

/-- The figures as they are printed. Each kind of report has a line of its own among them. -/
def Figures.text (f : Figures) (own : String) : String :=
  f.name ++ "\n  Pairs:        " ++ toString f.pairs ++ own
    ++ "\n  Size:         " ++ toString f.size ++ " bytes"
    ++ "\n  Link width:   " ++ toString f.width ++ " bytes"
    ++ "\n  Typo length:  " ++ toString f.shortest ++ "..=" ++ toString f.longest ++ "\n"

def Table.figures (t : Table) : Figures where
  name := t.name
  pairs := t.pairs.size
  size := t.size
  width := t.layout.width.bytes
  shortest := t.shortest.toNat
  longest := t.longest.toNat

def Region.figures (d : Region) : Figures where
  name := d.name
  pairs := d.pairs.length
  size := d.size.toNat
  width := d.linkWidth.bytes
  shortest := d.shortest.toNat
  longest := d.longest.toNat

theorem Artifact.map_figures_regionsFrom {position : Nat} {ts : List Table}
    (h : ∀ t ∈ ts, t.Measured) :
    (regionsFrom position ts).map Region.figures = ts.map Table.figures := by
  induction ts generalizing position with
  | nil => rfl
  | cons t ts ih =>
    obtain ⟨ht, hts⟩ := List.forall_mem_cons.mp h
    rw [regionsFrom, List.map_cons, List.map_cons, ih hts, Table.region, Region.figures, ht.size]
    rfl

namespace Command
variable {d d' : Disk} {job : CompileJob} {paths : List Path} {path : Path} {wordList : Option Path}
  {settings : Settings} {vs : List VettedDictionary} {a : Artifact} {ts : List Table}

/-! The text of reports. -/

/-- The line that only a report on a table has. -/
def entriesLine (t : Table) : String :=
  "\n  Entries:      " ++ toString t.counts.leaves ++ " leaf, " ++ toString t.counts.chains
    ++ " chain, " ++ toString t.counts.branches ++ " branch"

/-- The line that only a report on a region has. -/
def offsetLine (d : Region) : String := "\n  Offset:       " ++ toString d.offset

/-- A report that lists figures, each with a line of its own, and a total. -/
def listing (figures : List (Figures × String)) (total : Nat) : String :=
  String.join (figures.map fun f => f.1.text f.2) ++ "Total: " ++ toString total ++ " bytes\n"

theorem tableReport_eq (t : Table) : tableReport t = t.figures.text (entriesLine t) := by
  have hshortest : toString t.shortest = toString t.shortest.toNat := rfl
  have hlongest : toString t.longest = toString t.longest.toNat := rfl
  unfold tableReport entriesLine
  rw [hshortest, hlongest]
  generalize t.counts = n
  simp only [Figures.text, Table.figures, String.append_assoc]

theorem regionReport_eq (d : Region) : regionReport d = d.figures.text (offsetLine d) := by
  have hsize : toString d.size = toString d.size.toNat := rfl
  have hshortest : toString d.shortest = toString d.shortest.toNat := rfl
  have hlongest : toString d.longest = toString d.longest.toNat := rfl
  unfold regionReport offsetLine
  rw [hsize, hshortest, hlongest]
  simp only [Figures.text, Region.figures, String.append_assoc]

theorem tablesReport_eq (ts : List Table) : tablesReport ts =
    listing (ts.map fun t => (t.figures, entriesLine t)) (Table.totalSize ts) := by
  have htotal : ts.foldl (fun n t => n + t.size) 0 = Table.totalSize ts := by
    rw [Table.totalSize, List.sum_eq_foldl_nat, List.foldl_map]
  have hlines : ts.map tableReport = ts.map fun t => t.figures.text (entriesLine t) :=
    List.map_congr_left fun t _ => tableReport_eq t
  rw [tablesReport, totalReport, listing, htotal, hlines, List.map_map]
  simp only [Function.comp_def, String.append_assoc]

theorem artifactReport_eq (a : Artifact) : artifactReport a =
    listing (a.regions.map fun d => (d.figures, offsetLine d)) a.data.size := by
  have hlines : a.regions.map regionReport = a.regions.map fun d => d.figures.text (offsetLine d) :=
    List.map_congr_left fun d _ => regionReport_eq d
  rw [artifactReport, totalReport, listing, hlines, List.map_map]
  simp only [Function.comp_def, String.append_assoc]

/-! Reports change nothing. -/

theorem readsOnly_inspectArtifact (path : Path)
    (decode : ByteArray → Except ArtifactError Artifact) (unreadable : ArtifactError) :
    ReadsOnly (inspectArtifact path decode unreadable : StateM Disk _) := by
  refine (ReadsOnly.read path).bind fun r => ?_
  split
  · exact ReadsOnly.pure _
  · exact ReadsOnly.pure _
  · split <;> exact ReadsOnly.pure _

theorem readsOnly_inspectSources (paths : List Path) (wordList : Option Path)
    (settings : Settings) : ReadsOnly (inspectSources paths wordList settings : StateM Disk _) := by
  refine (readsOnly_gather paths wordList settings false).bind fun r => ?_
  split
  · exact ReadsOnly.pure _
  · split <;> exact ReadsOnly.pure _

theorem readsOnly_inspect (paths : List Path) (wordList : Option Path) (settings : Settings) :
    ReadsOnly (inspect paths wordList settings : StateM Disk _) := by
  unfold inspect
  split
  · exact readsOnly_inspectArtifact _ _ _
  · exact readsOnly_inspectArtifact _ _ _
  · exact readsOnly_inspectSources paths wordList settings

/-! Which files are artifacts. -/

/-- A path that ends as the files of a format that can be read back do. -/
def Ended (path : Path) (format : Artifact.Format) : Prop :=
  (format = .json ∧ path.extension? = some "json") ∨
    (format = .binary ∧ path.extension? = some "bin")

theorem Ended.ofPath?_eq {format : Artifact.Format} (h : Ended path format) :
    Artifact.Format.ofPath? path = some format := by
  obtain ⟨rfl, h⟩ | ⟨rfl, h⟩ := h <;> rw [Artifact.Format.ofPath?, h] <;> rfl

theorem Ended.extension?_ne {format : Artifact.Format} (h : Ended path format) :
    path.extension? ≠ some "h" := by
  obtain ⟨-, h⟩ | ⟨-, h⟩ := h <;> rw [h] <;> decide

theorem loneArtifact?_eq_none
    (h : ∀ p, paths = [p] → p.extension? ≠ some "json" ∧ p.extension? ≠ some "bin") :
    loneArtifact? paths = none := by
  unfold loneArtifact?
  split
  next path =>
    obtain ⟨hjson, hbin⟩ := h path rfl
    rw [Option.map_eq_none_iff, Artifact.Format.ofPath?, Option.bind_eq_none_iff]
    intro ext hext
    rw [hext] at hjson hbin
    have hne : ext ≠ "json" ∧ ext ≠ "bin" := by simpa using And.intro hjson hbin
    simp [Artifact.Format.ofReadableExtension?, Artifact.Format.extension, Ne.symm hne.1,
      Ne.symm hne.2]
  next => rfl

/-! What is reported. -/

theorem inspectSources_of_loads (h : Loads d paths wordList settings vs)
    (hts : Table.compileAll (vs.map (·.dictionary)) = .ok ts) :
    d.Sees (inspectSources paths wordList settings) (.ok (tablesReport ts)) := by
  have hgather := h.gather false
  rw [acceptAll_eq_ok.mpr ⟨by simp, rfl⟩] at hgather
  rw [inspectSources, hgather.bind_iff]
  dsimp only
  rw [hts]
  rfl

theorem inspectArtifact_of_read {decode : ByteArray → Except ArtifactError Artifact}
    {unreadable : ArtifactError} {bytes : ByteArray} (hread : d.read path = .ok bytes)
    (hdecode : decode bytes = .ok a) :
    d.Sees (inspectArtifact path decode unreadable) (.ok (artifactReport a)) := by
  rw [inspectArtifact, (sees_read d path).bind_iff, hread]
  dsimp only
  rw [hdecode]
  rfl

theorem Loads.short (h : Loads d paths wordList settings vs) :
    ∀ b ∈ vs.map (·.dictionary), Artifact.Short b := by
  intro b hb
  obtain ⟨v, hv, rfl⟩ := List.mem_map.mp hb
  obtain ⟨path, bytes, words, least, hread, hv⟩ := h.exists_file hv
  obtain ⟨ls, -, -, hname⟩ := VettedDictionary.ofBytes_eq_ok.mp hv
  refine ⟨?_, fun p hp => (VettedDictionary.exists_line hv hp).2.2⟩
  rw [hname]
  exact Disk.utf8ByteSize_le_of_read hread

/-- Whatever was written in a form that can be read is reported. -/
theorem inspect_of_ready (h : Ready d job settings paths path vs a)
    (hwrite : d.write path ((job.formatUnder settings).encode a) = .ok d')
    (hended : Ended path (job.formatUnder settings)) (wordList : Option Path)
    (settings' : Settings) :
    d'.Sees (inspect [path] wordList settings') (.ok (artifactReport a)) := by
  have hlone : loneArtifact? [path] = some (path, job.formatUnder settings) := by
    rw [loneArtifact?, hended.ofPath?_eq, Option.map_some]
  obtain ⟨ts, -, hjoins⟩ := Artifact.joins_of_compile h.compiled
  have hverify : a.verify = .ok a := by rw [Artifact.verify, hjoins.consistent]
  have hread := Disk.read_of_write hwrite
  rw [inspect, hlone]
  obtain ⟨hjson, -⟩ | ⟨hbinary, -⟩ := hended
  · rw [hjson] at hread ⊢
    exact inspectArtifact_of_read hread ((Artifact.Json.decode_encode_eq_verify a).trans hverify)
  · have hfits := Artifact.fits_of_compile h.compiled h.loads.short
    have hdecode := Artifact.Binary.decode_encode_append hfits ByteArray.empty
    rw [ByteArray.append_empty, hverify] at hdecode
    rw [hbinary] at hread ⊢
    exact inspectArtifact_of_read hread hdecode

/-- The report on an artifact that was just compiled gives the figures and the total of the report
on the files that it was compiled from. -/
theorem inspect_compiled {report : String}
    (hrun : (compile job settings : StateM Disk _).run d = (.ok report, d'))
    (hnames : job.Names (job.formatUnder settings) paths path)
    (hended : Ended path (job.formatUnder settings))
    (hlone : ∀ p, job.dictionaries = [p] → p.extension? ≠ some "json" ∧ p.extension? ≠ some "bin") :
    ∃ vs a ts, Ready d job settings job.dictionaries path vs a ∧
      Table.compileAll (vs.map (·.dictionary)) = .ok ts ∧
      a.regions.map Region.figures = ts.map Table.figures ∧
      a.data.size = Table.totalSize ts ∧
      (∀ wordList settings', d'.Sees (inspect [path] wordList settings')
        (.ok (listing (a.regions.map fun r => (r.figures, offsetLine r)) a.data.size))) ∧
      d.Sees (inspect job.dictionaries job.wordList settings)
        (.ok (listing (ts.map fun t => (t.figures, entriesLine t)) (Table.totalSize ts))) := by
  obtain ⟨paths', path', vs, a, hready, hwrite, -⟩ := compile_eq_ok.mp hrun
  obtain ⟨rfl, rfl⟩ := hnames.unique hready.names
  obtain rfl : paths' = job.dictionaries := hnames.dictionaries_eq hended.extension?_ne
  obtain ⟨ts, hts, rfl⟩ := Artifact.compile_eq_ok.mp hready.compiled
  have hmeasured := Artifact.measured_of_map (Artifact.compileAll_eq_ok.mp hts).2
  have hfigures : (Artifact.joined ts).regions.map Region.figures = ts.map Table.figures := by
    rw [Artifact.regions_joined, Artifact.map_figures_regionsFrom hmeasured]
  have hsources : inspect job.dictionaries job.wordList settings =
      (inspectSources job.dictionaries job.wordList settings : StateM Disk _) := by
    rw [inspect, loneArtifact?_eq_none hlone]
  refine ⟨vs, _, ts, hready, hts, hfigures, Artifact.size_joined, fun wordList settings' => ?_, ?_⟩
  · rw [← artifactReport_eq]
    exact inspect_of_ready hready hwrite hended wordList settings'
  · rw [← tablesReport_eq, hsources]
    exact inspectSources_of_loads hready.loads hts

/-- The sample job and the two reports on it. -/
theorem inspect_compiled_sample : ∃ report d', ∃ a : Artifact, ∃ ts : List Table,
    (compile sampleJob {} : StateM Disk _).run sampleDisk = (.ok report, d') ∧
    a.regions.map Region.figures = ts.map Table.figures ∧
    d'.Sees (inspect [⟨"out.json"⟩] none {})
      (.ok (listing (a.regions.map fun r => (r.figures, offsetLine r)) a.data.size)) ∧
    sampleDisk.Sees (inspect [⟨"hte.txt"⟩] (some ⟨"words.txt"⟩) {})
      (.ok (listing (ts.map fun t => (t.figures, entriesLine t)) (Table.totalSize ts))) := by
  obtain ⟨report, d', hrun⟩ := exists_compile_sample sampleJob {} ⟨rfl, rfl, rfl, rfl⟩ rfl
    words_sample
  obtain ⟨vs, a, ts, -, -, hfigures, -, hartifact, hsources⟩ :=
    inspect_compiled hrun (.output rfl) (.inl ⟨rfl, by decide⟩) (by
      rintro p ⟨⟩
      decide)
  exact ⟨report, d', a, ts, hrun, hfigures, hartifact none {}, hsources⟩

end Command
end Emend
