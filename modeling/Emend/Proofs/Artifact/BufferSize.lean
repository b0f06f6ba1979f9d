import Emend.Artifact

/-! The typing buffer has room for the longest typo of all, and for no more. -/
namespace Emend.Artifact
variable {a : Artifact} {d : Region}

theorem toNat_max (m n : UInt16) : (max m n).toNat = max m.toNat n.toNat := by
  have hmax : max m n = if m ≤ n then n else m := rfl
  rw [hmax]
  split
  next hle =>
    have := UInt16.le_iff_toNat_le.mp hle
    omega
  next hnot =>
    have := mt UInt16.le_iff_toNat_le.mpr hnot
    omega

theorem toNat_foldl_max (n : UInt16) (ds : List Region) :
    (ds.foldl (fun n d => max n d.longest) n).toNat =
      (ds.map fun d => d.longest.toNat).foldl max n.toNat := by
  induction ds generalizing n with
  | nil => rfl
  | cons d ds ih => rw [List.foldl_cons, ih, toNat_max, List.map_cons, List.foldl_cons]

theorem toNat_bufferSize (a : Artifact) :
    a.bufferSize.toNat = ((a.regions.map fun d => d.longest.toNat).max?).getD 0 := by
  rw [bufferSize, toNat_foldl_max]
  cases a.regions with
  | nil => rfl
  | cons d ds =>
    rw [List.map_cons, List.max?_cons', Option.getD_some, List.foldl_cons]
    congr 1

/-- The typing buffer has room for the longest typo of each region. -/
theorem longest_le_bufferSize (h : d ∈ a.regions) : d.longest.toNat ≤ a.bufferSize.toNat := by
  rw [toNat_bufferSize]
  exact List.le_max?_getD_of_mem (List.mem_map_of_mem h)

end Emend.Artifact
