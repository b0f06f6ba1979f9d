import Emend.Json.Token
import Emend.Proofs.Bytes
import Emend.Proofs.Lists

/-! Data as JSON values: numbers, texts and records are what they were made from. -/
namespace Emend.Json

/-! Numbers. -/

/-- The byte of a decimal digit. -/
def digit (d : Nat) : UInt8 := (0x30 + d).toUInt8

variable {n d largest : Nat} {ds : List UInt8}

theorem toUInt8_digitChar (h : d < 10) : (Nat.digitChar d).toNat.toUInt8 = digit d := by
  have hall : ∀ d < 10, (Nat.digitChar d).toNat.toUInt8 = digit d := by decide
  exact hall d h

theorem digits_of_lt (h : n < 10) : digits n = [digit n] := by
  rw [digits, Nat.toDigits_of_lt_base h, List.map_singleton, toUInt8_digitChar h]

theorem digits_of_le (h : 10 ≤ n) : digits n = digits (n / 10) ++ [digit (n % 10)] := by
  rw [digits, Nat.toDigits_of_base_le (by decide) h, List.map_append, List.map_singleton,
    toUInt8_digitChar (Nat.mod_lt n (by decide)), digits]

/-- What holds of single digits, and goes on to hold when a digit is appended, holds of the digits
of each number. -/
theorem digits_induction {P : Nat → List UInt8 → Prop} (single : ∀ d < 10, P d [digit d])
    (append : ∀ n ds d, 0 < n → d < 10 → P n ds → P (10 * n + d) (ds ++ [digit d])) (n : Nat) :
    P n (digits n) := by
  induction n using Nat.strongRecOn with
  | ind n ih =>
    by_cases h : n < 10
    · rw [digits_of_lt h]
      exact single n h
    · have hrest := append (n / 10) _ (n % 10) (by omega) (by omega) (ih (n / 10) (by omega))
      rwa [← digits_of_le (by omega), Nat.div_add_mod] at hrest

theorem isDigit_digit (h : d < 10) : isDigit (digit d) = true := by
  have hall : ∀ d < 10, isDigit (digit d) = true := by decide
  exact hall d h

theorem all_digits (n : Nat) : ∀ b ∈ digits n, isDigit b = true := by
  refine digits_induction (P := fun _ ds => ∀ b ∈ ds, isDigit b = true) ?_ ?_ n
  · intro d hd b hb
    rw [List.mem_singleton.mp hb]
    exact isDigit_digit hd
  · intro n ds d _ hd hds b hb
    rcases List.mem_append.mp hb with hb | hb
    · exact hds b hb
    · rw [List.mem_singleton.mp hb]
      exact isDigit_digit hd

theorem value_append (ds : List UInt8) (h : d < 10) :
    value (ds ++ [digit d]) = 10 * value ds + d := by
  have hall : ∀ d < 10, (digit d).toNat - 0x30 = d := by decide
  rw [value, List.foldl_append, List.foldl_cons, List.foldl_nil, hall d h, value]

theorem value_digits (n : Nat) : value (digits n) = n := by
  refine digits_induction (P := fun n ds => value ds = n) ?_ ?_ n
  · intro d hd
    exact (value_append [] hd).trans (Nat.zero_add d)
  · intro n ds d _ hd hds
    rw [value_append ds hd, hds]

/-- Only zero begins with a zero. -/
theorem digits_head (n : Nat) : digits n = [0x30] ∨ ∃ b rest, digits n = b :: rest ∧ b ≠ 0x30 := by
  refine (digits_induction (P := fun n ds => n = 0 ∧ ds = [0x30] ∨
    ∃ b rest, ds = b :: rest ∧ b ≠ 0x30) ?_ ?_ n).imp (fun h => h.2) id
  · intro d hd
    by_cases hzero : d = 0
    · exact Or.inl ⟨hzero, by rw [hzero]; rfl⟩
    · have hall : ∀ d < 10, d ≠ 0 → digit d ≠ 0x30 := by decide
      exact Or.inr ⟨digit d, [], rfl, hall d hd hzero⟩
  · rintro n ds d hn - (⟨rfl, -⟩ | ⟨b, rest, rfl, hb⟩)
    · cases hn
    · exact Or.inr ⟨b, rest ++ [digit d], rfl, hb⟩

theorem isNumber_digits (n : Nat) : isNumber (digits n) = true := by
  rcases digits_head n with h | ⟨b, rest, h, hzero⟩
  · rw [h]
    rfl
  · have hdigits := all_digits n
    rw [h] at hdigits ⊢
    have hb : isDigit b = true := hdigits b (List.mem_cons_self ..)
    have hsign : b ≠ 0x2D := by
      rintro rfl
      cases hb
    have hall : (b :: rest ++ []).dropWhile isDigit = [] := List.dropWhile_append_of_pos hdigits
    rw [List.append_nil] at hall
    rw [isNumber, isUnsigned, List.takeWhile_cons_of_pos hb, hall]
    · rfl
    · exact fun _ hcons => hzero (List.cons.inj hcons).1
    · exact fun _ hcons => hsign (List.cons.inj hcons).1

theorem natUpTo?_nat (h : n ≤ largest) : (nat n).natUpTo? largest = some n := by
  have hdigits : (digits n).all isDigit = true := List.all_eq_true.mpr (all_digits n)
  simp [natUpTo?, nat, nat?, hdigits, value_digits, h]

/-! Texts. -/

theorem fromUTF8?_toUTF8 (s : String) : String.fromUTF8? s.toUTF8 = some s :=
  fromUTF8?_eq_some.mpr rfl

theorem text?_text (s : String) : (text s).text? = some s := fromUTF8?_toUTF8 s

/-! Lists and records. -/

/-- What is made from members one by one is read back one by one. -/
theorem mapM_map_eq_some {α β : Type} {make : α → β} {read : β → Option α} {xs : List α}
    (h : ∀ x ∈ xs, read (make x) = some x) : (xs.map make).mapM read = some xs := by
  rw [List.mapM_map, mapM_eq_some_map (f := read ∘ make) (g := id) h, List.map_id]

variable {fields : List (String × Json)} {f : String × Json}

theorem namedFields?_record :
    namedFields? (fields.map fun (name, value) => (name.toUTF8, value)) = some fields := by
  refine mapM_map_eq_some fun f _ => ?_
  simp only [fromUTF8?_toUTF8, Option.map_some]

theorem lookup_of_mem (h : (fields.map Prod.fst).Nodup) (hf : f ∈ fields) :
    fields.lookup f.1 = some f.2 := by
  induction fields with
  | nil => cases hf
  | cons g fields ih =>
    rw [List.map_cons, List.nodup_cons] at h
    rcases List.mem_cons.mp hf with rfl | hf
    · exact List.lookup_cons_self
    · have hne : (f.1 == g.1) = false := by
        refine beq_eq_false_iff_ne.mpr fun heq => h.1 ?_
        exact heq ▸ List.mem_map_of_mem hf
      rw [List.lookup_cons, hne]
      exact ih h.2 hf

/-- A record gives the values of its fields by their names. -/
theorem fields?_record (h : (fields.map Prod.fst).Nodup) :
    (record fields).fields? (fields.map Prod.fst) = some (fields.map fun f => some f.2) := by
  have honce : ∀ name, (fields.filter (·.1 == name)).length ≤ 1 := by
    intro name
    have hcount := List.nodup_iff_count.mp h name
    rw [List.count, List.countP_map, List.countP_eq_length_filter] at hcount
    exact hcount
  have hall : ((fields.map Prod.fst).all fun name =>
      (fields.filter (·.1 == name)).length ≤ 1) = true := by
    simp [honce]
  rw [record, fields?, namedFields?_record, Option.bind_eq_bind, Option.bind_some, if_pos hall,
    List.map_map]
  exact congrArg some (List.map_congr_left fun f hf => lookup_of_mem h hf)

end Emend.Json
