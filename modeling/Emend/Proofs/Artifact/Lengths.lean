import Emend.Proofs.Artifact.Binary
import Emend.Proofs.Artifact.Join
import Emend.Proofs.Edit.Parts
import Mathlib.Data.List.Perm.Subperm

/-! The lengths in a compiled artifact. Each pair takes bytes of its table, and so does every
character of a correction that the typo does not share. A table is small, so the lengths can all be
told in eight bytes if names and typos are short. -/
namespace Emend

theorem utf8ByteSize_ofList_le (s : List Char) : (String.ofList s).utf8ByteSize ≤ 4 * s.length := by
  induction s with
  | nil => exact Nat.le_refl _
  | cons c s ih =>
    have := c.utf8Size_le_four
    rw [String.ofList_cons, String.utf8ByteSize_append, String.utf8ByteSize_singleton,
      List.length_cons]
    omega

theorem utf8ByteSize_le (s : String) : s.utf8ByteSize ≤ 4 * s.length := by
  have hle := utf8ByteSize_ofList_le s.toList
  rwa [String.ofList_toList, String.length_toList] at hle

theorem Pair.utf8ByteSize_correction_le (p : Pair) :
    p.correction.utf8ByteSize ≤ 4 * p.typo.length + p.remainder.utf8ByteSize := by
  have hsplit : p.correction =
      String.ofList (p.correction.toList.take p.kept) ++ p.remainder := by
    rw [← String.toList_inj, String.toList_append, String.toList_ofList, toList_remainder,
      List.take_append_drop]
  have htaken := utf8ByteSize_ofList_le (p.correction.toList.take p.kept)
  have hkept : p.kept ≤ p.typo.length := by
    obtain ⟨before, after, hedged⟩ := exists_edged p.typo.toList
    have := hedged.length
    have := p.kept_le.1
    rw [stripped] at this
    rw [← String.length_toList]
    omega
  rw [List.length_take] at htaken
  rw [hsplit, String.utf8ByteSize_append]
  omega

namespace Table.Compiled
variable {name : String} {ps : List Pair} {t : Table} {tree : RadixTree} {p : Pair}

/-- Every pair has a leaf, which takes some bytes. -/
theorem length_le_size (h : Compiled name ps t tree) : ps.length ≤ t.size := by
  have hsub : List.range ps.length ⊆ tree.leaves := by
    intro k hk
    exact (mem_leaves_of_spelledBy h.storable h.spelled).mpr
      ⟨_, List.getElem?_eq_getElem (List.mem_range.mp hk)⟩
  calc ps.length = (List.range ps.length).length := List.length_range.symm
    _ ≤ tree.leaves.length := (List.nodup_range.subperm hsub).length_le
    _ = (t.entries.filterMap Entry.pair?).length := by
      rw [RadixTree.filterMap_pair?_flatten h.flatten]
    _ ≤ t.entries.length := List.length_filterMap_le _ _
    _ ≤ totalLength t.layout.width t.entries :=
      RadixTree.length_le_sum (Entry.byteLength_pos t.layout.width) t.entries
    _ = t.size := h.data_size.symm

/-- What a correction adds to its typo is in the bytes of its leaf. -/
theorem remainder_le_size (h : Compiled name ps t tree) (hp : p ∈ ps) :
    p.remainder.utf8ByteSize ≤ t.size := by
  obtain ⟨k, hk⟩ := List.getElem?_of_mem hp
  obtain ⟨u, hu⟩ := Trie.codesOf_of_typeable (h.storable.1 p hp)
  obtain ⟨edit, hedit⟩ := h.edits p hp
  have hspells : RadixTree.Spells tree u k := (h.spelled u k).mpr ⟨p, hk, hu⟩
  have hleaf : leafLength ps.toArray k = edit.byteLength :=
    leafLength_eq ((editOf_eq hk).trans hedit)
  have hle := RadixTree.leafLength_le (w := t.layout.width) (f := leafLength ps.toArray) hspells
  rw [← h.size, hleaf, Edit.byteLength, (Edit.ofPair_spec hedit).2.2.1] at hle
  omega

end Table.Compiled

namespace Artifact
open Binary (CountFits TextFits PairFits RegionFits Fits)
variable {a : Artifact} {ds : List Dictionary} {d : Dictionary} {t : Table}

/-- No name is longer than a path can be, and no typo longer than the typing buffer. -/
def Short (d : Dictionary) : Prop :=
  d.name.utf8ByteSize ≤ 4095 ∧ ∀ p ∈ d.pairs, p.typo.length ≤ 127

theorem regionFits_of_compile (h : Table.compile d.name d.pairs = .ok t) (hshort : Short d)
    (start : Nat) : RegionFits (t.region start) := by
  obtain ⟨tree, hc⟩ := Table.compile_eq_ok.mp h
  have hbound := (Table.measured_of_compile h).bound
  have hcount := hc.length_le_size
  have hpairs : (t.region start).pairs = d.pairs := congrArg Array.toList hc.pairs
  have hname : (t.region start).name = d.name := hc.name
  have hpair : ∀ p ∈ d.pairs, PairFits p := by
    intro p hp
    have htypo := hshort.2 p hp
    have hremainder := hc.remainder_le_size hp
    have hcorrection := p.utf8ByteSize_correction_le
    have := utf8ByteSize_le p.typo
    simp only [PairFits, TextFits, CountFits]
    omega
  have hnamed := hshort.1
  rw [RegionFits, hpairs, hname]
  simp only [TextFits, CountFits]
  exact ⟨by omega, by omega, hpair⟩

theorem fits_of_compile (h : compile ds = .ok a) (hshort : ∀ d ∈ ds, Short d) : Fits a := by
  obtain ⟨ts, hts, rfl⟩ := compile_eq_ok.mp h
  obtain ⟨hcount, hmap⟩ := compileAll_eq_ok.mp hts
  rw [← length_eq_of_compileAll hts] at hcount
  have hsize := totalSize_lt (measured_of_map hmap) hcount
  refine ⟨⟨?_, fun r hr => ?_⟩, ?_⟩
  · rw [regions_joined, length_regionsFrom, CountFits]
    omega
  · rw [regions_joined] at hr
    obtain ⟨t, ht, start, rfl⟩ := exists_of_mem_regionsFrom hr
    obtain ⟨d, hd, hcompiled⟩ := exists_dictionary hmap ht
    exact regionFits_of_compile hcompiled (hshort d hd) start
  · rw [size_joined, CountFits]
    omega

end Artifact
end Emend
