import Emend.Proofs.Artifact.Consistency
import Emend.Proofs.Table.Compile

/-! Tables joined into one artifact. Each keeps its bytes and all that is recorded of it, whatever
its neighbours are. -/
namespace Emend

namespace Table
variable {name : String} {ps : List Pair} {t : Table}

/-- The size that is recorded is that of the data, and small. -/
structure Measured (t : Table) : Prop where
  size : t.layout.size.toNat = t.size
  bound : t.size ≤ 0xFFFFFF

theorem measured_of_compile (h : compile name ps = .ok t) : t.Measured := by
  obtain ⟨tree, hc⟩ := compile_eq_ok.mp h
  obtain ⟨hl, hfits⟩ := hc.layout_eq
  refine ⟨?_, ?_⟩
  · rw [hl, Layout.toNat_size_exact hfits, size, hc.data_size]
  · rw [size, hc.data_size]
    exact Nat.le_trans hfits (LinkWidth.reach_le _)

/-- What is recorded of a table whose data begin at `position`. -/
def region (t : Table) (position : Nat) : Region where
  name := t.name
  offset := position.toUInt32
  shortest := t.shortest
  longest := t.longest
  size := t.layout.size
  linkWidth := t.layout.width
  pairs := t.pairs.toList

/-- The bytes of tables together. -/
def totalSize (ts : List Table) : Nat := (ts.map size).sum

theorem totalSize_cons {ts : List Table} : totalSize (t :: ts) = t.size + totalSize ts := by
  rw [totalSize, List.map_cons, List.sum_cons, totalSize]

/-- A table ends before all of them do. -/
theorem totalSize_take_add_le {ts : List Table} {i : Nat} (h : ts[i]? = some t) :
    totalSize (ts.take i) + t.size ≤ totalSize ts := by
  induction ts generalizing i with
  | nil => cases h
  | cons u ts ih =>
    cases i with
    | zero =>
      cases h
      rw [List.take_zero, totalSize_cons, totalSize, List.map_nil, List.sum_nil]
      omega
    | succ i =>
      have := ih h
      rw [List.take_succ_cons, totalSize_cons, totalSize_cons]
      omega

end Table

namespace Artifact
variable {a : Artifact} {t : Table} {ts : List Table} {ds : List Dictionary} {position i : Nat}
  {e : CompileError}

/-- The regions of tables, the first of which begins at `position`. -/
def regionsFrom (position : Nat) : List Table → List Region
  | [] => []
  | t :: ts => t.region position :: regionsFrom (position + t.size) ts

theorem foldl_append : (ts.foldl append a).regions = a.regions ++ regionsFrom a.data.size ts ∧
    (ts.foldl append a).data.data.toList =
      a.data.data.toList ++ ts.flatMap fun t => t.data.data.toList := by
  induction ts generalizing a with
  | nil => simp [regionsFrom]
  | cons t ts ih =>
    obtain ⟨hregions, hdata⟩ := ih (a := a.append t)
    rw [List.foldl_cons, hregions, hdata]
    constructor
    · rw [append, regionsFrom, List.append_assoc, ByteArray.size_append]
      rfl
    · rw [append, ByteArray.toList_data_append, List.append_assoc, List.flatMap_cons]

theorem getElem?_regionsFrom : (regionsFrom position ts)[i]? =
    ts[i]?.map fun t => t.region (position + Table.totalSize (ts.take i)) := by
  induction ts generalizing position i with
  | nil => rfl
  | cons t ts ih =>
    rw [regionsFrom]
    cases i with
    | zero => rfl
    | succ i =>
      rw [List.getElem?_cons_succ, List.getElem?_cons_succ, ih, List.take_succ_cons,
        Table.totalSize_cons, Nat.add_assoc]

theorem exists_of_mem_regionsFrom {d : Region} (h : d ∈ regionsFrom position ts) :
    ∃ t ∈ ts, ∃ start, d = t.region start := by
  obtain ⟨i, hi⟩ := List.getElem?_of_mem h
  rw [getElem?_regionsFrom, Option.map_eq_some_iff] at hi
  obtain ⟨t, ht, rfl⟩ := hi
  exact ⟨t, List.mem_of_getElem? ht, _, rfl⟩

theorem totalSize_regionsFrom (h : ∀ t ∈ ts, t.Measured) :
    totalSize (regionsFrom position ts) = Table.totalSize ts := by
  induction ts generalizing position with
  | nil => rfl
  | cons t ts ih =>
    obtain ⟨ht, hts⟩ := List.forall_mem_cons.mp h
    rw [regionsFrom, totalSize, Table.totalSize_cons, ih hts, Table.region, ht.size]

theorem length_regionsFrom : (regionsFrom position ts).length = ts.length := by
  induction ts generalizing position with
  | nil => rfl
  | cons t ts ih => rw [regionsFrom, List.length_cons, List.length_cons, ih]

/-- Offsets are recorded as they are as long as the bytes together can be counted. -/
theorem contiguous_regionsFrom (h : ∀ t ∈ ts, t.Measured)
    (hsum : position + Table.totalSize ts < 2 ^ 32) :
    Contiguous position (regionsFrom position ts) := by
  induction ts generalizing position with
  | nil => exact fun i d hd => (by cases hd)
  | cons t ts ih =>
    obtain ⟨ht, hts⟩ := List.forall_mem_cons.mp h
    rw [Table.totalSize_cons, ← Nat.add_assoc] at hsum
    have hlt : position < 2 ^ 32 := by omega
    have hposition : (t.region position).offset.toNat = position := UInt32.toNat_ofNat_of_lt' hlt
    have hsize : (t.region position).size.toNat = t.size := ht.size
    rw [regionsFrom, contiguous_cons, hsize]
    exact ⟨hposition, ih hts hsum⟩

theorem totalSize_le (h : ∀ t ∈ ts, t.Measured) :
    Table.totalSize ts ≤ ts.length * 0xFFFFFF := by
  induction ts with
  | nil => exact Nat.zero_le _
  | cons t ts ih =>
    obtain ⟨ht, hts⟩ := List.forall_mem_cons.mp h
    have := ih hts
    have := ht.bound
    rw [Table.totalSize_cons, List.length_cons, Nat.succ_mul]
    omega

/-- Each table has its bytes and its record in the artifact, in order and without gaps. -/
structure Joins (a : Artifact) (ts : List Table) : Prop where
  count : a.regions.length = ts.length
  region : ∀ {i t}, ts[i]? = some t → a.regionBytes? i = some t.data
  past : ∀ {i}, ts.length ≤ i → a.regionBytes? i = none
  described : ∀ {i t}, ts[i]? = some t → ∃ d, a.regions[i]? = some d ∧ d.name = t.name ∧
    d.shortest = t.shortest ∧ d.longest = t.longest ∧ d.size = t.layout.size ∧
    d.size.toNat = t.size ∧ d.linkWidth = t.layout.width ∧ d.pairs = t.pairs.toList ∧
    d.offset.toNat = ((ts.take i).map Table.size).sum
  whole : a.data.data.toList = ts.flatMap fun t => t.data.data.toList
  consistent : a.check = .ok ()

/-- Tables side by side. -/
def joined (ts : List Table) : Artifact := ts.foldl append ⟨[], ByteArray.empty⟩

theorem regions_joined : (joined ts).regions = regionsFrom 0 ts := foldl_append.1

theorem toList_joined : (joined ts).data.data.toList = ts.flatMap fun t => t.data.data.toList :=
  foldl_append.2

theorem length_bytes : (ts.flatMap fun t => t.data.data.toList).length = Table.totalSize ts := by
  rw [List.length_flatMap]
  rfl

theorem size_joined : (joined ts).data.size = Table.totalSize ts := by
  rw [← length_bytes, ← toList_joined]
  rfl

theorem getElem?_joined (ht : ts[i]? = some t) :
    (joined ts).regions[i]? = some (t.region (Table.totalSize (ts.take i))) := by
  rw [regions_joined, getElem?_regionsFrom, ht, Nat.zero_add]
  rfl

section
variable (h : ∀ t ∈ ts, t.Measured) (hcount : 1 ≤ ts.length ∧ ts.length ≤ capacity)
include h hcount

/-- As many tables as there may be are too small for an offset to overflow. -/
theorem totalSize_lt : Table.totalSize ts < 2 ^ 32 := by
  have hle := totalSize_le h
  simp only [capacity] at hcount
  omega

theorem offset_region (ht : ts[i]? = some t) :
    (t.region (Table.totalSize (ts.take i))).offset.toNat = Table.totalSize (ts.take i) := by
  have hlt : Table.totalSize (ts.take i) < 2 ^ 32 := by
    have := totalSize_lt h hcount
    have := Table.totalSize_take_add_le ht
    omega
  exact UInt32.toNat_ofNat_of_lt' hlt

theorem regionBytes?_joined (ht : ts[i]? = some t) :
    (joined ts).regionBytes? i = some t.data := by
  have hoffset := offset_region h hcount ht
  have hsize : (t.region (Table.totalSize (ts.take i))).size.toNat = t.size :=
    (h t (List.mem_of_getElem? ht)).size
  have hfits : Table.totalSize (ts.take i) + t.size ≤ (joined ts).data.size := by
    rw [size_joined]
    exact Table.totalSize_take_add_le ht
  have hdrop := drop_flatMap (fun t : Table => t.data.data.toList) ht
  rw [length_bytes, ← toList_joined] at hdrop
  simp only [regionBytes?, getElem?_joined ht, hoffset, hsize, if_pos hfits]
  refine congrArg some (ByteArray.ext (Array.ext' ?_))
  rw [toList_extract, hdrop]
  exact List.take_left' rfl

theorem check_joined : (joined ts).check = .ok () := by
  have hlt := totalSize_lt h hcount
  refine check_eq_ok.mpr ⟨?_, ?_, ?_⟩
  · rw [regions_joined, length_regionsFrom]
    omega
  · rw [regions_joined]
    exact contiguous_regionsFrom h (by omega)
  · rw [regions_joined, totalSize_regionsFrom h, size_joined]

theorem joins_joined : (joined ts).Joins ts where
  count := by rw [regions_joined, length_regionsFrom]
  region := regionBytes?_joined h hcount
  past := by
    intro i hi
    have hnone : (joined ts).regions[i]? = none := by
      rw [List.getElem?_eq_none_iff, regions_joined, length_regionsFrom]
      exact hi
    simp only [regionBytes?, hnone]
  described := by
    intro i t ht
    have hsize := (h t (List.mem_of_getElem? ht)).size
    exact ⟨_, getElem?_joined ht, rfl, rfl, rfl, rfl, hsize, rfl, rfl, offset_region h hcount ht⟩
  whole := toList_joined
  consistent := check_joined h hcount

end

/-! Which dictionaries are joined. -/

/-- No dictionary, or more than there may be. -/
def Uncountable (n : Nat) (e : CompileError) : Prop :=
  n = 0 ∧ e = .noneGiven ∨ 8 < n ∧ e = .tooManyGiven n

/-- The first dictionary without a table has this error. -/
def FirstFailure (ds : List Dictionary) (e : CompileError) : Prop :=
  ∃ before d after, ds = before ++ d :: after ∧
    (∀ b ∈ before, ∃ t, Table.compile b.name b.pairs = .ok t) ∧
    Table.compile d.name d.pairs = .error e

theorem checkCapacity_spec (n : Nat) : match checkCapacity n with
    | .ok () => 1 ≤ n ∧ n ≤ 8
    | .error e => Uncountable n e := by
  rw [checkCapacity]
  by_cases hzero : n = 0
  · rw [if_pos hzero]
    exact Or.inl ⟨hzero, rfl⟩
  · rw [if_neg hzero]
    by_cases hmany : capacity < n
    · rw [if_pos hmany]
      exact Or.inr ⟨hmany, rfl⟩
    · rw [if_neg hmany]
      exact ⟨by omega, Nat.le_of_not_lt hmany⟩

theorem not_uncountable {n : Nat} (hcount : 1 ≤ n ∧ n ≤ 8) : ¬ Uncountable n e := by
  rintro (⟨hzero, -⟩ | ⟨hmany, -⟩) <;> omega

theorem checkCapacity_eq_ok {n : Nat} {u : Unit} :
    checkCapacity n = .ok u ↔ 1 ≤ n ∧ n ≤ 8 := by
  have hspec := checkCapacity_spec n
  cases h : checkCapacity n with
  | ok u =>
    rw [h] at hspec
    exact ⟨fun _ => hspec, fun _ => rfl⟩
  | error e =>
    rw [h] at hspec
    exact ⟨fun hok => (by cases hok), fun hcount => (not_uncountable hcount hspec).elim⟩

theorem uncountable_of_checkCapacity {n : Nat} (h : checkCapacity n = .error e) :
    Uncountable n e := by
  have hspec := checkCapacity_spec n
  rwa [h] at hspec

theorem ofTables_eq_ok : ofTables ts = .ok a ↔
    (1 ≤ ts.length ∧ ts.length ≤ 8) ∧ a = joined ts := by
  rw [ofTables, bind_eq_ok]
  simp only [checkCapacity_eq_ok, pure_eq_ok]
  simp [joined]

theorem ofTables_eq_error (h : ofTables ts = .error e) : Uncountable ts.length e := by
  rw [ofTables] at h
  rcases bind_eq_error.mp h with hcount | ⟨_, -, h⟩
  · exact uncountable_of_checkCapacity hcount
  · cases h

theorem compileAll_eq_ok : Table.compileAll ds = .ok ts ↔ (1 ≤ ds.length ∧ ds.length ≤ 8) ∧
    ds.map (fun d => Table.compile d.name d.pairs) = ts.map .ok := by
  rw [Table.compileAll, bind_eq_ok]
  simp only [checkCapacity_eq_ok, mapM_eq_ok]
  simp

theorem length_eq_of_compileAll (h : Table.compileAll ds = .ok ts) : ts.length = ds.length := by
  have hlen := congrArg List.length (compileAll_eq_ok.mp h).2
  rwa [List.length_map, List.length_map, eq_comm] at hlen

theorem compile_eq_ok :
    compile ds = .ok a ↔ ∃ ts, Table.compileAll ds = .ok ts ∧ a = joined ts := by
  rw [compile, bind_eq_ok]
  simp only [ofTables_eq_ok]
  constructor
  · rintro ⟨ts, hts, -, ha⟩
    exact ⟨ts, hts, ha⟩
  · rintro ⟨ts, hts, ha⟩
    have hcount := (compileAll_eq_ok.mp hts).1
    rw [← length_eq_of_compileAll hts] at hcount
    exact ⟨ts, hts, hcount, ha⟩

theorem compile_eq_error (h : compile ds = .error e) : Uncountable ds.length e ∨
    (1 ≤ ds.length ∧ ds.length ≤ 8) ∧ FirstFailure ds e := by
  rw [compile] at h
  rcases bind_eq_error.mp h with h | ⟨ts, hts, h⟩
  · rw [Table.compileAll] at h
    rcases bind_eq_error.mp h with hcount | ⟨_, hcount, hfailure⟩
    · exact Or.inl (uncountable_of_checkCapacity hcount)
    · exact Or.inr ⟨checkCapacity_eq_ok.mp hcount, mapM_eq_error hfailure⟩
  · have hcount := ofTables_eq_error h
    rw [length_eq_of_compileAll hts] at hcount
    exact Or.inl hcount

theorem exists_compile_iff : (∃ a, compile ds = .ok a) ↔ (1 ≤ ds.length ∧ ds.length ≤ 8) ∧
    ∀ d ∈ ds, ∃ t, Table.compile d.name d.pairs = .ok t := by
  rw [← exists_mapM]
  simp only [compile_eq_ok, compileAll_eq_ok, mapM_eq_ok]
  constructor
  · rintro ⟨a, ts, ⟨hcount, hts⟩, -⟩
    exact ⟨hcount, ts, hts⟩
  · rintro ⟨hcount, ts, hts⟩
    exact ⟨_, ts, ⟨hcount, hts⟩, rfl⟩

theorem exists_dictionary (h : ds.map (fun d => Table.compile d.name d.pairs) = ts.map .ok)
    (ht : t ∈ ts) : ∃ d ∈ ds, Table.compile d.name d.pairs = .ok t := by
  have hmem : Except.ok t ∈ ds.map fun d => Table.compile d.name d.pairs :=
    h ▸ List.mem_map_of_mem ht
  exact List.mem_map.mp hmem

theorem measured_of_map (h : ds.map (fun d => Table.compile d.name d.pairs) = ts.map .ok) :
    ∀ t ∈ ts, t.Measured := by
  intro t ht
  obtain ⟨d, -, hd⟩ := exists_dictionary h ht
  exact Table.measured_of_compile hd

theorem joins_of_compile (h : compile ds = .ok a) : ∃ ts,
    ds.map (fun d => Table.compile d.name d.pairs) = ts.map .ok ∧ a.Joins ts := by
  obtain ⟨ts, hts, rfl⟩ := compile_eq_ok.mp h
  obtain ⟨hcount, hmap⟩ := compileAll_eq_ok.mp hts
  rw [← length_eq_of_compileAll hts] at hcount
  exact ⟨ts, hmap, joins_joined (measured_of_map hmap) hcount⟩

/-- From one to eight dictionaries are joined if each of them has a table. The artifact joins these
tables as it would join any others, and the first failure is the only one that is told. -/
theorem compile_joins (ds : List Dictionary) :
    ((∃ a, compile ds = .ok a) ↔ (1 ≤ ds.length ∧ ds.length ≤ 8) ∧
      ∀ d ∈ ds, ∃ t, Table.compile d.name d.pairs = .ok t) ∧
    (∀ a, compile ds = .ok a → ∃ ts,
      ds.map (fun d => Table.compile d.name d.pairs) = ts.map .ok ∧ a.Joins ts) ∧
    (∀ e, compile ds = .error e → Uncountable ds.length e ∨
      (1 ≤ ds.length ∧ ds.length ≤ 8) ∧ FirstFailure ds e) ∧
    ∀ ts : List Table, (∀ t ∈ ts, ∃ name ps, Table.compile name ps = .ok t) →
      ((∃ a, ofTables ts = .ok a) ↔ 1 ≤ ts.length ∧ ts.length ≤ 8) ∧
      (∀ a, ofTables ts = .ok a → a.Joins ts) ∧
      ∀ e, ofTables ts = .error e → Uncountable ts.length e := by
  refine ⟨exists_compile_iff, fun a h => joins_of_compile h, fun e h => compile_eq_error h, ?_⟩
  intro ts hts
  have hmeasured : ∀ t ∈ ts, t.Measured := by
    intro t ht
    obtain ⟨name, ps, h⟩ := hts t ht
    exact Table.measured_of_compile h
  refine ⟨?_, ?_, fun e h => ofTables_eq_error h⟩
  · simp only [ofTables_eq_ok]
    simp
  · intro a h
    obtain ⟨hcount, rfl⟩ := ofTables_eq_ok.mp h
    exact joins_joined hmeasured hcount

/-- Two dictionaries, the table of one of them twice, and the first of two failures. -/
theorem compile_joins_hte :
    (∃ a, compile [⟨"english", [⟨"hte", "the"⟩]⟩, ⟨"more", [⟨"nad", "and"⟩]⟩] = .ok a) ∧
    (∃ t a, Table.compile "english" [⟨"hte", "the"⟩] = .ok t ∧ ofTables [t, t] = .ok a ∧
      a.Joins [t, t]) ∧
    compile [⟨"none", []⟩, ⟨"more", [⟨"", "and"⟩]⟩] = .error (.noPairs "none") ∧
    FirstFailure [⟨"none", []⟩, ⟨"more", [⟨"", "and"⟩]⟩] (.noPairs "none") := by
  obtain ⟨t, ht⟩ : ∃ t, Table.compile "english" [⟨"hte", "the"⟩] = .ok t :=
    exists_of_isOk (by decide +kernel)
  have hnad : ∃ t, Table.compile "more" [⟨"nad", "and"⟩] = .ok t :=
    exists_of_isOk (by decide +kernel)
  have hfailure : compile [⟨"none", []⟩, ⟨"more", [⟨"", "and"⟩]⟩] = .error (.noPairs "none") := rfl
  have hcompiled : ∀ u ∈ [t, t], ∃ name ps, Table.compile name ps = .ok u := by
    intro u hu
    have hut : u = t := by simpa using hu
    exact ⟨_, _, hut ▸ ht⟩
  have htwice := (compile_joins []).2.2.2 [t, t] hcompiled
  refine ⟨?_, ?_, hfailure, ?_⟩
  · refine (compile_joins _).1.mpr ⟨by decide, ?_⟩
    simpa using ⟨⟨t, ht⟩, hnad⟩
  · obtain ⟨a, ha⟩ := htwice.1.mpr ⟨Nat.succ_pos 1, Nat.le_add_left 2 6⟩
    exact ⟨t, a, ht, ha, htwice.2.1 a ha⟩
  · rcases (compile_joins _).2.2.1 _ hfailure with hcount | ⟨-, hfirst⟩
    · exact (not_uncountable (by decide) hcount).elim
    · exact hfirst

end Artifact

end Emend
