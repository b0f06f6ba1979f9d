import Emend.Proofs.Layout.Offsets

/-! The width of the links, chosen by the length of the table. Wide links make branches longer, so
each width has a length of its own to be measured by. -/
namespace Emend.Layout
variable {w : LinkWidth} {es : List Entry} {l : Layout} {name : String}

/-- Each entry is placed where the one before it ends, and no place is cut off when it is stored. -/
structure Tight (l : Layout) (es : List Entry) : Prop where
  count : l.offsets.size = es.length
  place : ∀ {i o}, l.offsets[i]? = some o → o.toNat = totalLength l.width (es.take i)
  first : ∀ {o}, l.offsets[0]? = some o → o = 0
  ascending : l.offsets.toList.Pairwise (· < ·)
  reached : ∀ o ∈ l.offsets, o.toNat ≤ l.width.reach
  size : l.size.toNat = totalLength l.width es

theorem size_offsets_exact (w : LinkWidth) (es : List Entry) :
    (exact w es).offsets.size = es.length := by
  have hlength : ∀ position, (starts w position es).length = es.length := by
    induction es with
    | nil => exact fun _ => rfl
    | cons e es ih =>
      intro position
      rw [starts, List.length_cons, List.length_cons, ih]
  rw [exact, List.size_toArray, hlength]

theorem Fits.toNat_offset (hfits : Fits w es) {i : Nat} {o : UInt32}
    (ho : (exact w es).offsets[i]? = some o) : i < es.length ∧ o.toNat = startOf w es i := by
  obtain ⟨hi, -⟩ := Array.getElem?_eq_some_iff.mp ho
  rw [size_offsets_exact] at hi
  rw [offset_exact hi] at ho
  cases ho
  exact ⟨hi, hfits.toNat_startOf⟩

/-- Every entry takes up some bytes, so no two of them share a place. -/
theorem Fits.ascending (hfits : Fits w es) :
    (exact w es).offsets.toList.Pairwise (· < ·) := by
  rw [List.pairwise_iff_getElem]
  intro i j hi hj hij
  obtain ⟨-, hlow⟩ := hfits.toNat_offset (Array.getElem?_toList.symm.trans
    (List.getElem?_eq_getElem hi))
  obtain ⟨hlt, hhigh⟩ := hfits.toNat_offset (Array.getElem?_toList.symm.trans
    (List.getElem?_eq_getElem hj))
  rw [UInt32.lt_iff_toNat_lt, hlow, hhigh]
  exact startOf_lt_startOf hij (Nat.le_of_lt hlt)

theorem tight_exact (hfits : Fits w es) : (exact w es).Tight es where
  count := size_offsets_exact w es
  place ho := (hfits.toNat_offset ho).2
  first ho := UInt32.toNat_inj.mp (hfits.toNat_offset ho).2
  ascending := hfits.ascending
  reached o ho := by
    obtain ⟨i, hi⟩ := Array.mem_iff_getElem?.mp ho
    rw [(hfits.toNat_offset hi).2]
    exact hfits.startOf_le i
  size := toNat_size_exact hfits

theorem exact_of_narrowest (h : narrowest name es = .ok l) :
    ∃ w, Fits w es ∧ l = exact w es := by
  rcases narrowest_eq_ok.mp h with ⟨hfits, hl⟩ | ⟨-, hfits, hl⟩
  · exact ⟨.two, hfits, hl⟩
  · exact ⟨.three, hfits, hl⟩

theorem exists_narrowest_two :
    (∃ l, narrowest name es = .ok l ∧ l.width = .two) ↔ Fits .two es := by
  constructor
  · rintro ⟨l, hl, hwidth⟩
    rcases narrowest_eq_ok.mp hl with ⟨hfits, -⟩ | ⟨-, -, rfl⟩
    · exact hfits
    · cases hwidth
  · intro hfits
    exact ⟨_, narrowest_eq_ok.mpr (Or.inl ⟨hfits, rfl⟩), rfl⟩

theorem exists_narrowest_three :
    (∃ l, narrowest name es = .ok l ∧ l.width = .three) ↔ ¬ Fits .two es ∧ Fits .three es := by
  constructor
  · rintro ⟨l, hl, hwidth⟩
    rcases narrowest_eq_ok.mp hl with ⟨-, rfl⟩ | ⟨hno, hfits, -⟩
    · cases hwidth
    · exact ⟨hno, hfits⟩
  · rintro ⟨hno, hfits⟩
    exact ⟨_, narrowest_eq_ok.mpr (Or.inr ⟨hno, hfits, rfl⟩), rfl⟩

/-- Links take two bytes if they reach the whole table so, three if only these reach it, and else
there is no layout. The place that could not be reached is past the limit, though not past the end
of the table. In a layout the entries lie without gaps. -/
theorem narrowest_exact (name : String) (es : List Entry) :
    ((∃ l, narrowest name es = .ok l ∧ l.width = .two) ↔ totalLength .two es ≤ 65535) ∧
    ((∃ l, narrowest name es = .ok l ∧ l.width = .three) ↔
      65535 < totalLength .two es ∧ totalLength .three es ≤ 16777215) ∧
    (65535 < totalLength .two es → 16777215 < totalLength .three es →
      ∃ size, narrowest name es = .error (.tableTooLarge name size) ∧
        16777215 < size ∧ size ≤ totalLength .three es) ∧
    ∀ l, narrowest name es = .ok l → l.Tight es := by
  have hthree : ¬ Fits .two es ∧ Fits .three es ↔
      65535 < totalLength .two es ∧ totalLength .three es ≤ 16777215 :=
    and_congr Nat.not_le Iff.rfl
  refine ⟨exists_narrowest_two, exists_narrowest_three.trans hthree, ?_, ?_⟩
  · intro htwo hlong
    cases h : narrowest name es with
    | ok l =>
      rcases narrowest_eq_ok.mp h with ⟨hfits, -⟩ | ⟨-, hfits, -⟩
      · exact absurd hfits (Nat.not_le_of_lt htwo)
      · exact absurd hfits (Nat.not_le_of_lt hlong)
    | error err =>
      obtain ⟨size, rfl, hreach, hle⟩ := narrowest_eq_error h
      exact ⟨size, rfl, hreach, hle⟩
  · intro l hl
    obtain ⟨w, hfits, rfl⟩ := exact_of_narrowest hl
    exact tight_exact hfits

/-- A branch and a chain of `n` codes. -/
def branched (n : Nat) : List Entry := [.branch [(4, 1), (5, 1)], .chain (List.replicate n 4) 1]

theorem totalLength_branched (n : Nat) :
    totalLength .two (branched n) = n + 8 ∧ totalLength .three (branched n) = n + 10 := by
  simp only [totalLength, branched, List.map_cons, List.map_nil, List.sum_cons, List.sum_nil,
    Entry.byteLength, LinkWidth.bytes, List.length_cons, List.length_nil, List.length_replicate]
  omega

/-- At the limit of two-byte links, one byte past it, and one past that of three-byte links. -/
theorem narrowest_exact_limits :
    (∃ l, narrowest "d" (branched 65527) = .ok l ∧ l.width = .two ∧ l.Tight (branched 65527)) ∧
    (∃ l, narrowest "d" (branched 65528) = .ok l ∧ l.width = .three) ∧
    narrowest "d" (branched 16777206) = .error (.tableTooLarge "d" 16777216) := by
  obtain ⟨htwo, -, -, htight⟩ := narrowest_exact "d" (branched 65527)
  obtain ⟨-, hthree, -⟩ := narrowest_exact "d" (branched 65528)
  obtain ⟨-, -, herror, -⟩ := narrowest_exact "d" (branched 16777206)
  simp only [totalLength_branched] at htwo hthree herror
  obtain ⟨l, hl, hwidth⟩ := htwo.mpr (by omega)
  obtain ⟨size, hsize, hlow, hhigh⟩ := herror (by omega) (by omega)
  refine ⟨⟨l, hl, hwidth, htight l hl⟩, hthree.mpr (by omega), ?_⟩
  rw [hsize, show size = 16777216 by omega]

end Emend.Layout
