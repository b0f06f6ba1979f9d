import Emend.Proofs.Artifact.Binary
import Emend.Proofs.Artifact.Consistency
import Emend.Proofs.Artifact.Json

/-! A consistent artifact is cut into its regions: each of them is there, and side by side they are
the data. A single wrong offset or size, or data of another length, is found. -/
namespace Emend.Artifact

variable {a : Artifact} {ds : List Region} {d e : Region} {position i : Nat}

/-- From one to eight regions, each behind the ones before it, make up the data. -/
structure Partitioned (a : Artifact) : Prop where
  count : 1 ≤ a.regions.length ∧ a.regions.length ≤ 8
  offsets : ∀ i d, a.regions[i]? = some d →
    d.offset.toNat = ((a.regions.take i).map fun b => b.size.toNat).sum
  regions : ∃ parts : List ByteArray,
    (List.range a.regions.length).map a.regionBytes? = parts.map some ∧
      a.data.data.toList = parts.flatMap fun p => p.data.toList

theorem totalSize_eq_sum : totalSize ds = (ds.map fun b => b.size.toNat).sum := by
  induction ds with
  | nil => rfl
  | cons d ds ih => simp [totalSize, ih]

theorem contiguous_zero : Contiguous 0 ds ↔ ∀ i d, ds[i]? = some d →
    d.offset.toNat = ((ds.take i).map fun b => b.size.toNat).sum := by
  simp only [Contiguous, Nat.zero_add, totalSize_eq_sum]

/-! The bytes of the regions. -/

/-- What the record of a region says its bytes are, if the data go that far. -/
def part? (a : Artifact) (d : Region) : Option ByteArray :=
  let last := d.offset.toNat + d.size.toNat
  if last ≤ a.data.size then some (a.data.extract d.offset.toNat last) else none

theorem map_regionBytes? (a : Artifact) :
    (List.range a.regions.length).map a.regionBytes? = a.regions.map a.part? := by
  apply List.ext_getElem (by simp)
  intro i hi hj
  have hlt : i < a.regions.length := by simpa using hi
  simp [regionBytes?, part?, hlt]

theorem part?_eq_some {p : ByteArray} (h : a.part? d = some p) :
    p.data.toList = (a.data.data.toList.drop d.offset.toNat).take d.size.toNat ∧
      p.data.toList.length = d.size.toNat := by
  simp only [part?] at h
  split at h
  next hfits =>
    cases h
    have hlist := toList_extract a.data d.offset.toNat d.size.toNat
    refine ⟨hlist, ?_⟩
    have hlength : a.data.data.toList.length = a.data.size := rfl
    rw [hlist, List.length_take, List.length_drop]
    omega
  next => cases h

/-- Regions without gaps that end within the data give a stretch of it. -/
theorem exists_parts (h : Contiguous position ds) (hend : position + totalSize ds ≤ a.data.size) :
    ∃ parts : List ByteArray, ds.map a.part? = parts.map some ∧
      (parts.flatMap fun p => p.data.toList) =
        (a.data.data.toList.drop position).take (totalSize ds) := by
  induction ds generalizing position with
  | nil => exact ⟨[], rfl, by simp [totalSize]⟩
  | cons d ds ih =>
    obtain ⟨hfirst, hrest⟩ := contiguous_cons.mp h
    rw [totalSize, ← Nat.add_assoc] at hend
    obtain ⟨parts, hparts, hbytes⟩ := ih hrest hend
    have hfits : d.offset.toNat + d.size.toNat ≤ a.data.size := by omega
    obtain ⟨p, hp⟩ : ∃ p, a.part? d = some p := ⟨_, if_pos hfits⟩
    refine ⟨p :: parts, by simp [hp, hparts], ?_⟩
    rw [List.flatMap_cons, hbytes, (part?_eq_some hp).1, hfirst, totalSize, List.take_add,
      List.drop_drop]

theorem length_parts {parts : List ByteArray} (h : ds.map a.part? = parts.map some) :
    (parts.flatMap fun p => p.data.toList).length = totalSize ds := by
  induction ds generalizing parts with
  | nil =>
    cases parts with
    | nil => rfl
    | cons p parts => cases h
  | cons d ds ih =>
    cases parts with
    | nil => cases h
    | cons p parts =>
      obtain ⟨hp, hparts⟩ := List.cons.inj h
      rw [List.flatMap_cons, List.length_append, ih hparts, (part?_eq_some hp).2, totalSize]

theorem check_iff_partitioned : a.check = .ok () ↔ a.Partitioned := by
  rw [check_eq_ok]
  constructor
  · rintro ⟨⟨hne, hle⟩, hcontiguous, hsize⟩
    have hend : 0 + totalSize a.regions ≤ a.data.size := by omega
    obtain ⟨parts, hparts, hbytes⟩ := exists_parts hcontiguous hend
    refine ⟨⟨by omega, hle⟩, contiguous_zero.mp hcontiguous, parts, ?_, ?_⟩
    · rw [map_regionBytes?, hparts]
    · have hall : a.data.data.toList.length ≤ totalSize a.regions := Nat.le_of_eq hsize.symm
      rw [hbytes, List.drop_zero, List.take_of_length_le hall]
  · rintro ⟨⟨hne, hle⟩, hoffsets, parts, hparts, hbytes⟩
    rw [map_regionBytes?] at hparts
    refine ⟨⟨by omega, hle⟩, contiguous_zero.mpr hoffsets, ?_⟩
    rw [← length_parts hparts, ← hbytes]
    rfl

/-! What is read from bytes has been checked. -/

theorem verify_eq_ok {b : Artifact} (h : b.verify = .ok a) : a.check = .ok () := by
  unfold verify at h
  split at h
  next hcheck =>
    cases h
    exact hcheck
  next => cases h

theorem check_of_json {bytes : ByteArray} (h : Json.decode bytes = .ok a) : a.check = .ok () := by
  unfold Json.decode at h
  split at h
  next => exact verify_eq_ok h
  next => cases h

theorem check_of_binary {bytes : ByteArray} (h : Binary.decode bytes = .ok a) :
    a.check = .ok () := by
  unfold Binary.decode at h
  split at h
  next => exact verify_eq_ok h
  next => cases h

/-! One thing changed. -/

/-- The artifact with another record of region `i`. -/
def replace (a : Artifact) (i : Nat) (d : Region) : Artifact :=
  { a with regions := a.regions.set i d }

theorem exists_error_of_not_ok {b : Artifact} (h : b.check ≠ .ok ()) :
    ∃ why, b.check = .error why := by
  cases hcheck : b.check with
  | ok u => exact (h hcheck).elim
  | error why => exact ⟨why, rfl⟩

/-- The records before a region alone say where it begins. -/
theorem offset_of_replace (hi : a.regions[i]? = some d) (h : a.check = .ok ())
    (he : (a.replace i e).check = .ok ()) : e.offset = d.offset := by
  have hlt := (List.getElem?_eq_some_iff.mp hi).1
  have hold := (check_eq_ok.mp h).2.1 i d hi
  have hnew := (check_eq_ok.mp he).2.1 i e (by simp [replace, hlt])
  have htake : (a.regions.set i e).take i = a.regions.take i :=
    List.take_set_of_le (Nat.le_refl i)
  rw [replace, htake, ← hold] at hnew
  exact UInt32.toNat_inj.mp hnew

theorem totalSize_set (hi : ds[i]? = some d) :
    totalSize (ds.set i e) + d.size.toNat = totalSize ds + e.size.toNat := by
  induction ds generalizing i with
  | nil => cases hi
  | cons b ds ih =>
    cases i with
    | zero =>
      cases hi
      simp only [List.set_cons_zero, totalSize]
      omega
    | succ i =>
      have := ih hi
      simp only [List.set_cons_succ, totalSize]
      omega

theorem size_of_replace (hi : a.regions[i]? = some d) (h : a.check = .ok ())
    (he : (a.replace i e).check = .ok ()) : e.size = d.size := by
  have hold := (check_eq_ok.mp h).2.2
  have hnew : totalSize (a.regions.set i e) = a.data.size := (check_eq_ok.mp he).2.2
  have hset := totalSize_set (e := e) hi
  exact UInt32.toNat_inj.mp (by omega)

theorem size_of_data {data : ByteArray} (h : a.check = .ok ())
    (hdata : ({ a with data } : Artifact).check = .ok ()) : data.size = a.data.size := by
  have hold := (check_eq_ok.mp h).2.2
  have hnew : totalSize a.regions = data.size := (check_eq_ok.mp hdata).2.2
  omega

/-- The check accepts what its regions partition, and nothing else is ever read. Where it accepts an
artifact, it does not accept the same one with another offset, another size or more or less data. -/
theorem check_partitions (a : Artifact) :
    (a.check = .ok () ↔ a.Partitioned) ∧
    (∀ bytes, Json.decode bytes = .ok a → a.Partitioned) ∧
    (∀ bytes, Binary.decode bytes = .ok a → a.Partitioned) ∧
    (a.check = .ok () → ∀ i d, a.regions[i]? = some d →
      (∀ offset, offset ≠ d.offset → ∃ why, (a.replace i { d with offset }).check = .error why) ∧
      ∀ size, size ≠ d.size → ∃ why, (a.replace i { d with size }).check = .error why) ∧
    (a.check = .ok () → ∀ data : ByteArray, data.size ≠ a.data.size →
      ∃ why, ({ a with data } : Artifact).check = .error why) := by
  refine ⟨check_iff_partitioned, ?_, ?_, ?_, ?_⟩
  · intro bytes h
    exact check_iff_partitioned.mp (check_of_json h)
  · intro bytes h
    exact check_iff_partitioned.mp (check_of_binary h)
  · intro h i d hi
    constructor
    · intro offset hne
      apply exists_error_of_not_ok
      intro hok
      exact hne (offset_of_replace hi h hok)
    · intro size hne
      apply exists_error_of_not_ok
      intro hok
      exact hne (size_of_replace hi h hok)
  · intro h data hne
    apply exists_error_of_not_ok
    intro hok
    exact hne (size_of_data h hok)

/-- A region without bytes between two others. -/
def threeRegions : Artifact where
  regions := [⟨"a", 0, 3, 3, 2, .two, []⟩, ⟨"b", 2, 3, 3, 0, .three, []⟩,
    ⟨"c", 2, 3, 3, 1, .two, [⟨"hte", "the"⟩]⟩]
  data := ⟨#[0, 255, 7]⟩

theorem check_partitions_threeRegions : threeRegions.check = .ok () ∧ threeRegions.Partitioned ∧
    (∃ bytes, Json.decode bytes = .ok threeRegions) ∧
    (∃ bytes, Binary.decode bytes = .ok threeRegions) ∧
    (∃ why, (threeRegions.replace 1 ⟨"b", 0, 3, 3, 0, .three, []⟩).check = .error why) ∧
    (∃ why, (threeRegions.replace 2 ⟨"c", 2, 3, 3, 0, .two, [⟨"hte", "the"⟩]⟩).check = .error why) ∧
    ∃ why, ({ threeRegions with data := ⟨#[0, 255]⟩ } : Artifact).check = .error why := by
  obtain ⟨hiff, hjson, hbinary, hregion, hdata⟩ := check_partitions threeRegions
  have hok : threeRegions.check = .ok () := rfl
  have hverify : threeRegions.verify = .ok threeRegions := rfl
  have hdecoded := Json.decode_encode_eq_verify threeRegions
  have hread := Binary.decode_encode_append (a := threeRegions) (by decide) ByteArray.empty
  rw [hverify] at hdecoded hread
  refine ⟨hok, hjson _ hdecoded, ⟨_, hdecoded⟩, ⟨_, hread⟩, ?_, ?_, hdata hok _ (by decide)⟩
  · exact (hregion hok 1 _ rfl).1 0 (by decide)
  · exact (hregion hok 2 _ rfl).2 0 (by decide)

end Emend.Artifact
