import Emend.Alphabet

/-! Key codes fit in six bits, are never zero, and tell characters apart. -/
namespace Emend
namespace Alphabet
variable {a b : Char} {k : UInt8} {cs ds : List Char} {ks ls : List UInt8}

/-- A code that a key can have: both high bits are clear, and zero is left to mark ends. -/
def IsCode (k : UInt8) : Prop := 0 < k.toNat ∧ k.toNat < 64

theorem isLetter_iff : isLetter a = true ↔ 97 ≤ a.toNat ∧ a.toNat ≤ 122 := by
  simp only [isLetter, Bool.and_eq_true, decide_eq_true_eq]
  rfl

theorem toNat_letterCode (h : isLetter a = true) :
    (letterCode + (a.toNat - 'a'.toNat).toUInt8).toNat = a.toNat - 93 := by
  obtain ⟨hl, hu⟩ := isLetter_iff.mp h
  have hle : (a.toNat - 97) % 256 = a.toNat - 97 := Nat.mod_eq_of_lt (by omega)
  rw [UInt8.toNat_add, show 'a'.toNat = 97 from rfl, show letterCode.toNat = 4 from rfl]
  simp only [Nat.toUInt8, UInt8.toNat_ofNat', hle]
  omega

/-- The letters, the apostrophe and the boundary have codes in three separate places. -/
theorem code?_cases (h : code? a = some k) :
    (4 ≤ k.toNat ∧ k.toNat ≤ 29 ∧ a.toNat = k.toNat + 93) ∨ (k.toNat = 52 ∧ a.toNat = 39) ∨
      (k.toNat = 44 ∧ a.toNat = 58) := by
  unfold code? at h
  split at h
  next hl =>
    have hb := isLetter_iff.mp hl
    have hk := toNat_letterCode hl
    cases h
    omega
  next =>
    split at h
    next hq =>
      cases h
      subst hq
      decide
    next =>
      split at h
      next hb =>
        cases h
        subst hb
        decide
      next => cases h

theorem toNat_of_contains (h : contains a = true) :
    (97 ≤ a.toNat ∧ a.toNat ≤ 122) ∨ a.toNat = 39 ∨ a.toNat = 58 := by
  obtain ⟨k, hk⟩ := Option.isSome_iff_exists.mp h
  have hcases := code?_cases hk
  omega

theorem isCode_of_code? (h : code? a = some k) : IsCode k := by
  rcases code?_cases h with hk | hk | hk <;> exact ⟨by omega, by omega⟩

theorem code?_injective (ha : code? a = some k) (hb : code? b = some k) : a = b := by
  have h1 := code?_cases ha
  have h2 := code?_cases hb
  exact Char.toNat_inj.mp (by omega)

/-- Codes of characters one by one, as an equation that lists can be cut along. -/
theorem mapM_code?_eq_some : cs.mapM code? = some ks ↔ cs.map code? = ks.map some := by
  induction cs generalizing ks with
  | nil => cases ks <;> simp
  | cons a cs ih =>
    cases ks with
    | nil => cases ha : code? a <;> cases hm : cs.mapM code? <;> simp [List.mapM_cons, ha, hm]
    | cons k ks =>
      simp only [List.mapM_cons, List.map_cons, List.cons.injEq, ← ih]
      cases code? a <;> cases cs.mapM code? <;> simp

theorem isSome_mapM_code? : (cs.mapM code?).isSome = true ↔ ∀ c ∈ cs, contains c = true := by
  induction cs with
  | nil => simp
  | cons a cs ih =>
    rw [List.forall_mem_cons, ← ih, List.mapM_cons, contains]
    cases code? a <;> cases cs.mapM code? <;> simp

theorem map_code?_injective (hc : cs.map code? = ks.map some) (hd : ds.map code? = ks.map some) :
    cs = ds := by
  induction ks generalizing cs ds with
  | nil => simp_all
  | cons k ks ih =>
    cases cs with
    | nil => simp at hc
    | cons a cs =>
      cases ds with
      | nil => simp at hd
      | cons b ds =>
        simp only [List.map_cons, List.cons.injEq] at hc hd
        rw [code?_injective hc.1 hd.1, ih hc.2 hd.2]

theorem isCode_of_map_code? (h : cs.map code? = ks.map some) : ∀ k ∈ ks, IsCode k := by
  intro k hk
  have hm : some k ∈ cs.map code? := h ▸ List.mem_map_of_mem hk
  obtain ⟨a, _, ha⟩ := List.mem_map.mp hm
  exact isCode_of_code? ha

/-- Whether one text ends in another can be told from their codes. Only the first has to have a
code for each character. -/
theorem suffix_iff_map_code? (hc : cs.map code? = ks.map some) :
    cs <:+ ds ↔ cs.map code? <:+ ds.map code? := by
  constructor
  · rintro ⟨rest, rfl⟩
    exact ⟨rest.map code?, by rw [List.map_append]⟩
  · intro h
    have hdrop := List.suffix_iff_eq_drop.mp h
    rw [← List.map_drop, hc] at hdrop
    rw [map_code?_injective hc hdrop.symm]
    exact List.drop_suffix _ _

/-- One text ends in another if and only if its codes do. -/
theorem suffix_iff_of_map_code? (hc : cs.map code? = ks.map some)
    (hd : ds.map code? = ls.map some) : cs <:+ ds ↔ ks <:+ ls := by
  rw [suffix_iff_map_code? hc, hc, hd]
  exact List.suffix_map_iff_of_injective fun _ _ => Option.some.inj

end Alphabet

/-- The codes of a text in typing order; nothing if one of its characters has none. -/
def keys? (text : String) : Option (List UInt8) := text.toList.mapM Alphabet.code?

variable {s t : String} {ks ls : List UInt8}

theorem keys?_eq_some : keys? s = some ks ↔ s.toList.map Alphabet.code? = ks.map some :=
  Alphabet.mapM_code?_eq_some

example : keys? ":it's" = some [0x2C, 0x0C, 0x17, 0x34, 0x16] := by decide

theorem isCode_of_keys? (h : keys? s = some ks) : ∀ k ∈ ks, Alphabet.IsCode k :=
  Alphabet.isCode_of_map_code? (keys?_eq_some.mp h)

theorem suffix_iff_of_keys? (hs : keys? s = some ks) (ht : keys? t = some ls) :
    s.toList <:+ t.toList ↔ ks <:+ ls :=
  Alphabet.suffix_iff_of_map_code? (keys?_eq_some.mp hs) (keys?_eq_some.mp ht)

end Emend
