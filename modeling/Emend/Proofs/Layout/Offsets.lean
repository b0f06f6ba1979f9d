import Emend.Layout
import Emend.Proofs.Entry.Flatten

/-! Each entry begins where the one before it ends. The width is the least whose links reach to
the end of the table. -/
namespace Emend

theorem LinkWidth.reach_le (w : LinkWidth) : w.reach ≤ 0xFFFFFF := by
  cases w <;> decide

/-- The first byte of entry `id`. -/
def startOf (w : LinkWidth) (es : List Entry) (id : Nat) : Nat := totalLength w (es.take id)

theorem startOf_succ {w : LinkWidth} {es : List Entry} {id : Nat} {e : Entry}
    (h : es[id]? = some e) : startOf w es (id + 1) = startOf w es id + e.byteLength w := by
  rw [startOf, List.take_add_one, h, totalLength_append, startOf]
  simp [totalLength]

theorem startOf_le (w : LinkWidth) (es : List Entry) (id : Nat) :
    startOf w es id ≤ totalLength w es := by
  have h := congrArg (totalLength w) (List.take_append_drop id es)
  rw [totalLength_append] at h
  rw [startOf]
  omega

theorem startOf_length {w : LinkWidth} {es : List Entry} :
    startOf w es es.length = totalLength w es := by
  rw [startOf, List.take_length]

theorem startOf_lt_startOf {w : LinkWidth} {es : List Entry} {i j : Nat} (hij : i < j)
    (hj : j ≤ es.length) : startOf w es i < startOf w es j := by
  induction j with
  | zero => omega
  | succ j ih =>
    have hlt : j < es.length := hj
    have hsucc := startOf_succ (w := w) (List.getElem?_eq_getElem hlt)
    have hpos := es[j].byteLength_pos w
    rcases Nat.lt_succ_iff_lt_or_eq.mp hij with hij | rfl
    · have := ih hij (Nat.le_of_lt hlt)
      omega
    · omega

namespace Layout
variable {w : LinkWidth} {es : List Entry} {offsets : Array UInt32} {l : Layout} {id : Nat}
  {name : String}

/-- The first bytes of entries, the first of which begins at `position`. -/
def starts (w : LinkWidth) (position : Nat) : List Entry → List UInt32
  | [] => []
  | e :: es => position.toUInt32 :: starts w (position + e.byteLength w) es

theorem getElem?_starts {position : Nat} : (starts w position es)[id]? =
    es[id]?.map fun _ => (position + startOf w es id).toUInt32 := by
  induction es generalizing position id with
  | nil => rfl
  | cons e es ih =>
    rw [starts]
    cases id with
    | zero => rfl
    | succ id =>
      rw [List.getElem?_cons_succ, List.getElem?_cons_succ, ih, startOf, startOf,
        List.take_succ_cons, totalLength_cons, Nat.add_assoc]

/-- The layout of entries without gaps. -/
def exact (w : LinkWidth) (es : List Entry) : Layout :=
  ⟨w, (starts w 0 es).toArray, (totalLength w es).toUInt32⟩

/-- Links can reach the end of the table. -/
def Fits (w : LinkWidth) (es : List Entry) : Prop := totalLength w es ≤ w.reach

theorem Fits.startOf_le (hfits : Fits w es) (id : Nat) : startOf w es id ≤ w.reach :=
  Nat.le_trans (Emend.startOf_le w es id) hfits

/-- Places are small enough to be stored. -/
theorem Fits.toNat_startOf (hfits : Fits w es) :
    (startOf w es id).toUInt32.toNat = startOf w es id := by
  have hlt : startOf w es id < 2 ^ 32 := by
    have := hfits.startOf_le id
    have := w.reach_le
    omega
  exact UInt32.toNat_ofNat_of_lt' hlt

theorem offset_exact (h : id < es.length) :
    (exact w es).offsets[id]? = some (startOf w es id).toUInt32 := by
  rw [exact, List.getElem?_toArray, getElem?_starts, List.getElem?_eq_getElem h, Nat.zero_add]
  rfl

theorem toNat_size_exact (hfits : Fits w es) : (exact w es).size.toNat = totalLength w es := by
  rw [← startOf_length, ← hfits.toNat_startOf, startOf_length]
  rfl

theorem placeFrom_spec (offsets : Array UInt32) (es : List Entry) {position : Nat}
    (hpos : position ≤ w.reach) :
    match placeFrom w offsets position es with
    | .ok l => position + totalLength w es ≤ w.reach ∧
        l = ⟨w, offsets ++ (starts w position es).toArray,
          (position + totalLength w es).toUInt32⟩
    | .error _ => w.reach < position + totalLength w es := by
  induction es generalizing offsets position with
  | nil => simpa [placeFrom, starts, totalLength] using hpos
  | cons e es ih =>
    rw [placeFrom, totalLength_cons, ← Nat.add_assoc, starts]
    by_cases hnext : w.reach < position + e.byteLength w
    · simp only [hnext, if_true]
      omega
    · have hpush : offsets.push position.toUInt32 ++
          (starts w (position + e.byteLength w) es).toArray = offsets ++
          (position.toUInt32 :: starts w (position + e.byteLength w) es).toArray := by
        apply Array.ext'
        simp
      simp only [hnext, if_false, ← hpush]
      exact ih _ (Nat.le_of_not_lt hnext)

/-- The error is a position past the reach, though not past the end of the table. -/
theorem placeFrom_eq_error {position n : Nat} (h : placeFrom w offsets position es = .error n) :
    w.reach < n ∧ n ≤ position + totalLength w es := by
  induction es generalizing offsets position with
  | nil => cases h
  | cons e es ih =>
    rw [placeFrom] at h
    rw [totalLength_cons, ← Nat.add_assoc]
    by_cases hnext : w.reach < position + e.byteLength w
    · simp only [hnext, if_true] at h
      cases h
      exact ⟨hnext, Nat.le_add_right _ _⟩
    · simp only [hnext, if_false] at h
      exact ih h

theorem under_spec (w : LinkWidth) (es : List Entry) : match under w es with
    | .ok l => Fits w es ∧ l = exact w es
    | .error _ => ¬ Fits w es := by
  have h := placeFrom_spec #[] es (Nat.zero_le w.reach)
  rw [under]
  generalize placeFrom w #[] 0 es = r at h ⊢
  cases r with
  | error n => simpa [Fits] using h
  | ok l => simpa [Fits, exact] using h

theorem narrowest_eq_ok : narrowest name es = .ok l ↔
    Fits .two es ∧ l = exact .two es ∨
      ¬ Fits .two es ∧ Fits .three es ∧ l = exact .three es := by
  have h2 := under_spec .two es
  have h3 := under_spec .three es
  rw [narrowest]
  generalize under .two es = r at h2 ⊢
  generalize under .three es = s at h3 ⊢
  cases r with
  | ok m => simp_all [eq_comm]
  | error n =>
    cases s with
    | ok m => simp_all [eq_comm]
    | error m => simp_all

theorem exists_narrowest (name : String) (hfits : Fits w es) :
    ∃ l, narrowest name es = .ok l := by
  by_cases h2 : Fits .two es
  · exact ⟨_, narrowest_eq_ok.mpr (Or.inl ⟨h2, rfl⟩)⟩
  · cases w with
    | two => exact (h2 hfits).elim
    | three => exact ⟨_, narrowest_eq_ok.mpr (Or.inr ⟨h2, hfits, rfl⟩)⟩

/-- Only the widest links are given up. -/
theorem narrowest_eq_error {err : CompileError} (h : narrowest name es = .error err) :
    ∃ size, err = .tableTooLarge name size ∧ LinkWidth.three.reach < size ∧
      size ≤ totalLength .three es := by
  rw [narrowest] at h
  cases h2 : under .two es with
  | ok l =>
    rw [h2] at h
    cases h
  | error n =>
    cases h3 : under .three es with
    | ok l =>
      rw [h2, h3] at h
      cases h
    | error size =>
      rw [h2, h3] at h
      cases h
      have hsize := placeFrom_eq_error h3
      rw [Nat.zero_add] at hsize
      exact ⟨size, rfl, hsize⟩

theorem byteLength_three_le (e : Entry) : e.byteLength .three ≤ 2 * e.byteLength .two := by
  cases e with
  | leaf k edit => exact Nat.le_mul_of_pos_left _ Nat.two_pos
  | chain codes next => exact Nat.le_mul_of_pos_left _ Nat.two_pos
  | branch links =>
    simp only [Entry.byteLength, LinkWidth.bytes]
    omega

theorem totalLength_three_le (es : List Entry) :
    totalLength .three es ≤ 2 * totalLength .two es := by
  induction es with
  | nil => exact Nat.le_refl 0
  | cons e es ih =>
    have he := byteLength_three_le e
    rw [totalLength_cons, totalLength_cons]
    omega

/-- What narrow links reach, wide links reach too. -/
theorem fits_three_of_fits_two (h : Fits .two es) : Fits .three es := by
  have hle := totalLength_three_le es
  simp only [Fits, LinkWidth.reach] at h ⊢
  omega

end Layout
end Emend
