import Emend.Artifact.Consistency
import Emend.Proofs.Except

/-! What it means for an artifact to be consistent: each region begins where the sizes of those
before it add up to, and all sizes add up to the data. -/
namespace Emend.Artifact

/-- The bytes of regions together. -/
def totalSize : List Region → Nat
  | [] => 0
  | d :: ds => d.size.toNat + totalSize ds

variable {a : Artifact} {ds : List Region} {d : Region} {position n : Nat}

/-- The first region begins at `position`, and each of the others where the one before ends. -/
def Contiguous (position : Nat) (ds : List Region) : Prop :=
  ∀ i d, ds[i]? = some d → d.offset.toNat = position + totalSize (ds.take i)

theorem contiguous_cons : Contiguous position (d :: ds) ↔
    d.offset.toNat = position ∧ Contiguous (position + d.size.toNat) ds := by
  constructor
  · intro h
    refine ⟨h 0 d rfl, fun i e he => ?_⟩
    have hstep := h (i + 1) e he
    rwa [List.take_succ_cons, totalSize, ← Nat.add_assoc] at hstep
  · rintro ⟨hfirst, hrest⟩ i e he
    cases i with
    | zero =>
      cases he
      exact hfirst
    | succ i =>
      rw [List.take_succ_cons, totalSize, ← Nat.add_assoc]
      exact hrest i e he

theorem checkOffsets_eq_ok : checkOffsets position ds = .ok n ↔
    Contiguous position ds ∧ n = position + totalSize ds := by
  induction ds generalizing position with
  | nil =>
    constructor
    · intro h
      cases h
      exact ⟨fun i d hd => (by cases hd), rfl⟩
    · rintro ⟨-, rfl⟩
      rfl
  | cons d ds ih =>
    rw [checkOffsets, contiguous_cons, totalSize, ← Nat.add_assoc]
    by_cases hd : d.offset.toNat = position
    · rw [if_pos hd, ih]
      simp only [hd, true_and]
    · rw [if_neg hd]
      constructor
      · intro h
        cases h
      · rintro ⟨⟨h, -⟩, -⟩
        exact (hd h).elim

theorem check_eq_ok : a.check = .ok () ↔ (a.regions.length ≠ 0 ∧ a.regions.length ≤ capacity) ∧
    Contiguous 0 a.regions ∧ totalSize a.regions = a.data.size := by
  rw [check]
  by_cases hcount : a.regions.length = 0 ∨ capacity < a.regions.length
  · have hrefused : (a.regions.length = 0 || capacity < a.regions.length : Bool) = true := by
      simpa using hcount
    rw [if_pos hrefused]
    constructor
    · intro h
      cases h
    · rintro ⟨⟨hne, hle⟩, -⟩
      omega
  · have hallowed : ¬ (a.regions.length = 0 || capacity < a.regions.length : Bool) = true := by
      simpa using hcount
    rw [if_neg hallowed, bind_eq_ok]
    constructor
    · rintro ⟨covered, hcovered, hsize⟩
      obtain ⟨hcontiguous, rfl⟩ := checkOffsets_eq_ok.mp hcovered
      rw [Nat.zero_add] at hsize
      by_cases hall : totalSize a.regions = a.data.size
      · exact ⟨by omega, hcontiguous, hall⟩
      · rw [if_pos hall] at hsize
        cases hsize
    · rintro ⟨-, hcontiguous, hall⟩
      refine ⟨_, checkOffsets_eq_ok.mpr ⟨hcontiguous, rfl⟩, ?_⟩
      rw [Nat.zero_add, if_neg fun h => h hall]
      rfl

end Emend.Artifact
