import Emend.Json.Parser
import Emend.Json.Printer
import Emend.Proofs.Bytes

/-! What a machine makes of the strings, words and numbers that are printed. -/
namespace Emend.Json

theorem Partial.pushUnit_of_lt {s : ByteArray} {n : Nat} (h : n < 0x80) :
    pushUnit ⟨s, none⟩ n = ⟨s.push n.toUInt8, none⟩ := by
  have hhigh : isHighSurrogate n = false := by
    simp [isHighSurrogate]
    omega
  simp [pushUnit, hhigh, pointBytes, h]

theorem hexValue?_lowerHexDigit {d : UInt8} (h : d.toNat < 16) :
    hexValue? (lowerHexDigit d) = some d.toNat := by
  have hdigits : ∀ n < 16, hexValue? (lowerHexDigit (UInt8.ofNat n)) = some n := by decide
  have hd := hdigits d.toNat h
  rwa [UInt8.ofNat_toNat] at hd

/-- A byte is escaped by a letter of its own or by its number, or stands for itself. -/
theorem escapeByte_cases (b : UInt8) :
    (∃ c, c ≠ 0x75 ∧ escaped? c = some b ∧ escapeByte b = [0x5C, c]) ∨
    (b < 0x20 ∧ escapeByte b =
      [0x5C, 0x75, 0x30, 0x30, lowerHexDigit (b / 16), lowerHexDigit (b % 16)]) ∨
    (b ≠ 0x22 ∧ b ≠ 0x5C ∧ ¬ b < 0x20 ∧ escapeByte b = [b]) := by
  by_cases hquote : b = 0x22
  · subst hquote
    exact Or.inl ⟨0x22, by decide, rfl, rfl⟩
  by_cases hbackslash : b = 0x5C
  · subst hbackslash
    exact Or.inl ⟨0x5C, by decide, rfl, rfl⟩
  by_cases hback : b = 0x08
  · subst hback
    exact Or.inl ⟨0x62, by decide, rfl, rfl⟩
  by_cases htab : b = 0x09
  · subst htab
    exact Or.inl ⟨0x74, by decide, rfl, rfl⟩
  by_cases hline : b = 0x0A
  · subst hline
    exact Or.inl ⟨0x6E, by decide, rfl, rfl⟩
  by_cases hpage : b = 0x0C
  · subst hpage
    exact Or.inl ⟨0x66, by decide, rfl, rfl⟩
  by_cases hreturn : b = 0x0D
  · subst hreturn
    exact Or.inl ⟨0x72, by decide, rfl, rfl⟩
  rw [escapeByte, if_neg hquote, if_neg hbackslash, if_neg hback, if_neg htab, if_neg hline,
    if_neg hpage, if_neg hreturn]
  by_cases hcontrol : b < 0x20
  · rw [if_pos hcontrol]
    exact Or.inr (Or.inl ⟨hcontrol, rfl⟩)
  · rw [if_neg hcontrol]
    exact Or.inr (Or.inr ⟨hquote, hbackslash, hcontrol, rfl⟩)

namespace Scanner
variable {sofar : Partial} {b c : UInt8} {s : ByteArray} {d : Nat}

theorem step_string : step (.string sofar) b =
    if b = 0x22 then some (between, some (.scalar (.string sofar.flush)))
    else if b = 0x5C then some (escape sofar, none)
    else if b < 0x20 then none
    else some (string (sofar.push b), none) := rfl

theorem step_escape : step (.escape sofar) b =
    if b = 0x75 then some (unit sofar 4 0, none)
    else (escaped? b).map fun c => (string (sofar.push c), none) := rfl

theorem step_unit (left value : Nat) (h : hexValue? b = some d) :
    step (.unit sofar (left + 2) value) b =
      some (.unit sofar (left + 1) (16 * value + d), none) := by
  have hstep : step (.unit sofar (left + 2) value) b = (hexValue? b).map fun d =>
      if left + 2 ≤ 1 then (string (sofar.pushUnit (16 * value + d)), none)
      else (unit sofar (left + 1) (16 * value + d), none) := rfl
  rw [hstep, h, Option.map_some, if_neg (by omega)]

theorem step_lastUnit (value : Nat) (h : hexValue? b = some d) :
    step (.unit sofar 1 value) b = some (.string (sofar.pushUnit (16 * value + d)), none) := by
  have hstep : step (.unit sofar 1 value) b = (hexValue? b).map fun d =>
      (string (sofar.pushUnit (16 * value + d)), none) := rfl
  rw [hstep, h, Option.map_some]

theorem start_of_isNumberByte (h : isNumberByte b = true) : start b = some (.number [b], none) := by
  have hne : ∀ c, isNumberByte c = false → b ≠ c := by
    rintro c hc rfl
    rw [h] at hc
    cases hc
  simp [start, h, hne 0x20 rfl, hne 0x09 rfl, hne 0x0A rfl, hne 0x0D rfl, hne 0x5B rfl,
    hne 0x5D rfl, hne 0x7B rfl, hne 0x7D rfl, hne 0x3A rfl, hne 0x2C rfl, hne 0x22 rfl,
    hne 0x6E rfl, hne 0x74 rfl, hne 0x66 rfl]

end Scanner

namespace Machine
variable {m n : Machine} {p q : Parser} {b c : UInt8} {bs cs : List UInt8} {s : ByteArray}
  {sc next : Scanner} {token : Option Token}

theorem run_append : m.run (bs ++ cs) = (m.run bs).bind fun n => n.run cs := by
  induction bs generalizing m with
  | nil => rfl
  | cons b bs ih =>
    rw [List.cons_append, run, run]
    cases m.step b with
    | none => rfl
    | some n => exact ih

/-- Outside of a number no byte ends anything by not belonging to it. -/
theorem step_eq (hstep : sc.step b = some (next, token)) (hfeed : p.feedAll token = some q)
    (hsc : ∀ reversed, sc ≠ .number reversed) : step ⟨sc, p⟩ b = some ⟨next, q⟩ := by
  have hnothing : finishNumber ⟨sc, p⟩ = some ⟨sc, p⟩ := by
    cases sc with
    | number reversed => exact (hsc reversed rfl).elim
    | _ => rfl
  rw [step, hnothing, ite_self]
  simp [advance, hstep, hfeed]

theorem run_cons (hstep : sc.step b = some (next, token)) (hfeed : p.feedAll token = some q)
    (hsc : ∀ reversed, sc ≠ .number reversed) :
    run ⟨sc, p⟩ (b :: bs) = run ⟨next, q⟩ bs := by
  rw [run, step_eq hstep hfeed hsc]

/-! Strings. -/

theorem run_plain (hquote : b ≠ 0x22) (hbackslash : b ≠ 0x5C) (hcontrol : ¬ b < 0x20) :
    run ⟨.string ⟨s, none⟩, p⟩ [b] = some ⟨.string ⟨s.push b, none⟩, p⟩ := by
  have hstep : Scanner.step (.string ⟨s, none⟩) b = some (.string ⟨s.push b, none⟩, none) := by
    rw [Scanner.step_string, if_neg hquote, if_neg hbackslash, if_neg hcontrol]
    rfl
  exact run_cons hstep rfl (by nofun)

theorem run_escape (hletter : c ≠ 0x75) (h : escaped? c = some b) :
    run ⟨.string ⟨s, none⟩, p⟩ [0x5C, c] = some ⟨.string ⟨s.push b, none⟩, p⟩ := by
  have hopen : Scanner.step (.string ⟨s, none⟩) 0x5C = some (.escape ⟨s, none⟩, none) := rfl
  have hstep : Scanner.step (.escape ⟨s, none⟩) c = some (.string ⟨s.push b, none⟩, none) := by
    rw [Scanner.step_escape, if_neg hletter, h]
    rfl
  rw [run_cons hopen rfl (by nofun)]
  exact run_cons hstep rfl (by nofun)

theorem run_unit (h : b < 0x20) : run ⟨.string ⟨s, none⟩, p⟩
    [0x5C, 0x75, 0x30, 0x30, lowerHexDigit (b / 16), lowerHexDigit (b % 16)] =
      some ⟨.string ⟨s.push b, none⟩, p⟩ := by
  have hb : b.toNat < 32 := UInt8.lt_iff_toNat_lt.mp h
  have hzero : hexValue? 0x30 = some 0 := rfl
  have hdiv : (b / 16).toNat = b.toNat / 16 := UInt8.toNat_div ..
  have hmod : (b % 16).toNat = b.toNat % 16 := UInt8.toNat_mod ..
  have hhigh : hexValue? (lowerHexDigit (b / 16)) = some (b.toNat / 16) := by
    rw [hexValue?_lowerHexDigit (by omega), hdiv]
  have hlow : hexValue? (lowerHexDigit (b % 16)) = some (b.toNat % 16) := by
    rw [hexValue?_lowerHexDigit (by omega), hmod]
  have hvalue : 16 * (16 * (16 * (16 * 0 + 0) + 0) + b.toNat / 16) + b.toNat % 16 = b.toNat := by
    omega
  have hpush : Partial.pushUnit ⟨s, none⟩ b.toNat = ⟨s.push b, none⟩ := by
    rw [Partial.pushUnit_of_lt (by omega), Nat.toUInt8, UInt8.ofNat_toNat]
  have hopen : Scanner.step (.string ⟨s, none⟩) 0x5C = some (.escape ⟨s, none⟩, none) := rfl
  have hletter : Scanner.step (.escape ⟨s, none⟩) 0x75 = some (.unit ⟨s, none⟩ 4 0, none) := rfl
  rw [run_cons hopen rfl (by nofun), run_cons hletter rfl (by nofun),
    run_cons (Scanner.step_unit 2 0 hzero) rfl (by nofun),
    run_cons (Scanner.step_unit 1 _ hzero) rfl (by nofun),
    run_cons (Scanner.step_unit 0 _ hhigh) rfl (by nofun),
    run_cons (Scanner.step_lastUnit _ hlow) rfl (by nofun), hvalue, hpush]
  rfl

/-- An escaped byte is read as the byte. -/
theorem run_escapeByte : run ⟨.string ⟨s, none⟩, p⟩ (escapeByte b) =
    some ⟨.string ⟨s.push b, none⟩, p⟩ := by
  rcases escapeByte_cases b with ⟨c, hletter, hc, hb⟩ | ⟨hcontrol, hb⟩ |
    ⟨hquote, hbackslash, hcontrol, hb⟩
  · rw [hb, run_escape hletter hc]
  · rw [hb, run_unit hcontrol]
  · rw [hb, run_plain hquote hbackslash hcontrol]

theorem run_flatMap_escapeByte : run ⟨.string ⟨s, none⟩, p⟩ (bs.flatMap escapeByte) =
    some ⟨.string ⟨bs.foldl ByteArray.push s, none⟩, p⟩ := by
  induction bs generalizing s with
  | nil => rfl
  | cons b bs ih =>
    rw [List.flatMap_cons, run_append, run_escapeByte, Option.bind_some, ih, List.foldl_cons]

/-- A string as it is printed is one token. -/
theorem run_string {bytes : ByteArray} (h : p.feed (.scalar (.string bytes)) = some q) :
    run ⟨.between, p⟩ (0x22 :: (bytes.data.toList.flatMap escapeByte ++ [0x22])) =
      some ⟨.between, q⟩ := by
  have hopen : Scanner.step .between 0x22 = some (.string ⟨ByteArray.empty, none⟩, none) := rfl
  have hclose : Scanner.step (.string ⟨bytes, none⟩) 0x22 =
      some (.between, some (.scalar (.string bytes))) := rfl
  rw [run_cons hopen rfl (by nofun), run_append, run_flatMap_escapeByte, foldl_push_toList,
    Option.bind_some]
  exact run_cons hclose h (by nofun)

/-! Words. -/

theorem run_word {rest : List UInt8} {value : Json} (h : p.feed (.scalar value) = some q) :
    run ⟨.word (c :: rest) value, p⟩ (c :: rest) = some ⟨.between, q⟩ := by
  induction rest generalizing c with
  | nil =>
    have hstep : Scanner.step (.word [c] value) c = some (.between, some (.scalar value)) :=
      if_pos rfl
    exact run_cons hstep h (by nofun)
  | cons d rest ih =>
    have hstep : Scanner.step (.word (c :: d :: rest) value) c =
        some (.word (d :: rest) value, none) := if_pos rfl
    rw [run_cons hstep rfl (by nofun)]
    exact ih

/-! Numbers. -/

theorem run_number {reversed : List UInt8} (h : ∀ b ∈ bs, isNumberByte b = true) :
    run ⟨.number reversed, p⟩ bs = some ⟨.number (bs.reverse ++ reversed), p⟩ := by
  induction bs generalizing reversed with
  | nil => rfl
  | cons b bs ih =>
    obtain ⟨hb, hbs⟩ := List.forall_mem_cons.mp h
    have hstep : step ⟨.number reversed, p⟩ b = some ⟨.number (b :: reversed), p⟩ := by
      rw [step, hb]
      rfl
    rw [run, hstep, List.reverse_cons, List.append_assoc]
    exact ih hbs

end Machine

/-! Literals. -/

variable {b : UInt8} {bs : List UInt8}

theorem isNumberByte_of_isDigit (h : isDigit b = true) : isNumberByte b = true := by
  simp [isNumberByte, h]

theorem all_of_isDigits (h : isDigits bs = true) : ∀ b ∈ bs, isNumberByte b = true := by
  intro b hb
  rw [isDigits, Bool.and_eq_true, List.all_eq_true] at h
  exact isNumberByte_of_isDigit (h.2 b hb)

/-- The digits in front need not be looked at. -/
theorem all_of_dropWhile (h : ∀ b ∈ bs.dropWhile isDigit, isNumberByte b = true) :
    ∀ b ∈ bs, isNumberByte b = true := by
  intro b hb
  rw [← List.takeWhile_append_dropWhile (p := isDigit) (l := bs), List.mem_append] at hb
  rcases hb with hb | hb
  · exact isNumberByte_of_isDigit (List.all_eq_true.mp List.all_takeWhile b hb)
  · exact h b hb

theorem all_of_isExponent (h : isExponent bs = true) : ∀ b ∈ bs, isNumberByte b = true := by
  cases bs with
  | nil => simp
  | cons e bs =>
    simp only [isExponent, Bool.and_eq_true, Bool.or_eq_true] at h
    obtain ⟨he, hrest⟩ := h
    refine List.forall_mem_cons.mpr ⟨by rcases he with he | he <;> simp [isNumberByte, he], ?_⟩
    cases bs with
    | nil => cases hrest
    | cons sign rest =>
      simp only at hrest
      by_cases hsign : sign = 0x2B ∨ sign = 0x2D
      · rw [if_pos (by simpa using hsign)] at hrest
        refine List.forall_mem_cons.mpr ⟨?_, all_of_isDigits hrest⟩
        rcases hsign with rfl | rfl <;> rfl
      · rw [if_neg (by simpa using hsign)] at hrest
        exact all_of_isDigits hrest

theorem all_of_isFraction (h : isFraction bs = true) : ∀ b ∈ bs, isNumberByte b = true := by
  by_cases hpoint : ∃ rest, bs = 0x2E :: rest
  · obtain ⟨rest, rfl⟩ := hpoint
    rw [isFraction, Bool.and_eq_true] at h
    exact List.forall_mem_cons.mpr ⟨rfl, all_of_dropWhile (all_of_isExponent h.2)⟩
  · rw [isFraction] at h
    · exact all_of_isExponent h
    · exact fun rest hrest => hpoint ⟨rest, hrest⟩

theorem all_of_isUnsigned (h : isUnsigned bs = true) : ∀ b ∈ bs, isNumberByte b = true := by
  by_cases hzero : ∃ rest, bs = 0x30 :: rest
  · obtain ⟨rest, rfl⟩ := hzero
    exact List.forall_mem_cons.mpr ⟨rfl, all_of_isFraction h⟩
  · rw [isUnsigned, Bool.and_eq_true] at h
    · exact all_of_dropWhile (all_of_isFraction h.2)
    · exact fun rest hrest => hzero ⟨rest, hrest⟩

/-- A number has only bytes that can belong to a number. -/
theorem all_of_isNumber (h : isNumber bs = true) : ∀ b ∈ bs, isNumberByte b = true := by
  by_cases hsign : ∃ rest, bs = 0x2D :: rest
  · obtain ⟨rest, rfl⟩ := hsign
    exact List.forall_mem_cons.mpr ⟨rfl, all_of_isUnsigned h⟩
  · rw [isNumber] at h
    · exact all_of_isUnsigned h
    · exact fun rest hrest => hsign ⟨rest, hrest⟩

end Emend.Json
