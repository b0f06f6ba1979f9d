import Emend.Proofs.Table.Compile

/-! Reading a table as keys come in, the last key first. The first byte at a place says what is
there: a leaf, a branch, or the next code of a chain. -/
namespace Emend

/-- Why no leaf is reached. -/
inductive Halt
  | outside
  | noMatch
  deriving DecidableEq, Repr

namespace Scan

def byteAt (data : ByteArray) (position : Nat) : Except Halt UInt8 :=
  match data[position]? with
  | some b => .ok b
  | none => .error .outside

/-- The number in the next `count` bytes, lowest first. -/
def readLink (data : ByteArray) (position : Nat) : Nat → Except Halt Nat
  | 0 => .ok 0
  | count + 1 => do
    let low ← byteAt data position
    let high ← readLink data (position + 1) count
    return low.toNat + 256 * high

/-- Compares the key with the codes of a branch until one of them is the key, or zero. -/
def choose (w : LinkWidth) (data : ByteArray) (key : UInt8) (position : Nat) : Except Halt Nat :=
  match h : data[position]? with
  | none => .error .outside
  | some b =>
    if b &&& Alphabet.largestCode = key then readLink data (position + 1) w.bytes
    else if b &&& Alphabet.largestCode = 0 then .error .noMatch
    else choose w data key (position + 1 + w.bytes)
termination_by data.size - position
decreasing_by
  have := (getElem?_eq_some_iff.mp h).1
  omega

/-- Takes one key at a place whose first byte is `b`. At the end of a chain the zero is skipped. -/
def advance (w : LinkWidth) (data : ByteArray) (position : Nat) (b key : UInt8) :
    Except Halt Nat :=
  if b &&& Alphabet.branchBit ≠ 0 then choose w data key position
  else if b ≠ key then .error .noMatch
  else do
    let next ← byteAt data (position + 1)
    return if next = 0 then position + 2 else position + 1

/-- Where the leaf is that the keys lead to from `position`. -/
def scanFrom (w : LinkWidth) (data : ByteArray) (position : Nat) :
    List UInt8 → Except Halt Nat
  | [] => do
    let b ← byteAt data position
    if b &&& Alphabet.leafBit ≠ 0 then return position
    throw .noMatch
  | key :: keys => do
    let b ← byteAt data position
    if b &&& Alphabet.leafBit ≠ 0 then return position
    let next ← advance w data position b key
    scanFrom w data next keys

end Scan

/-- Where the leaf is that typed keys lead to, read from the last one back. -/
def Table.scan (t : Table) (keys : List UInt8) : Except Halt Nat :=
  Scan.scanFrom t.layout.width t.data 0 keys.reverse

namespace Scan
open Alphabet (IsCode)

variable {w : LinkWidth} {data : ByteArray} {position n : Nat} {b c key : UInt8}
  {bs codes keys : List UInt8} {start : Nat → Nat} {flag : UInt8} {links : List (UInt8 × Nat)}

/-! Flags. -/

theorem of_isCode {P : UInt8 → Prop} (hc : IsCode c) (h : ∀ m < 64, P (UInt8.ofNat m)) : P c :=
  UInt8.ofNat_toNat (x := c) ▸ h _ hc.2

theorem leafBit_or_and (b : UInt8) : (Alphabet.leafBit ||| b) &&& Alphabet.leafBit ≠ 0 := by
  have h : ∀ m < 256, (Alphabet.leafBit ||| UInt8.ofNat m) &&& Alphabet.leafBit ≠ 0 := by
    decide +kernel
  rw [← UInt8.ofNat_toNat (x := b)]
  exact h _ b.toNat_lt

/-- A code in a chain has neither flag. -/
theorem code_flags (h : IsCode c) : c &&& Alphabet.leafBit = 0 ∧ c &&& Alphabet.branchBit = 0 :=
  of_isCode (P := fun c => c &&& Alphabet.leafBit = 0 ∧ c &&& Alphabet.branchBit = 0) h
    (by decide)

/-- The first code of a branch has one of them. -/
theorem branchCode_flags (h : IsCode c) : (c ||| Alphabet.branchBit) &&& Alphabet.leafBit = 0 ∧
    (c ||| Alphabet.branchBit) &&& Alphabet.branchBit ≠ 0 :=
  of_isCode (P := fun c => (c ||| Alphabet.branchBit) &&& Alphabet.leafBit = 0 ∧
    (c ||| Alphabet.branchBit) &&& Alphabet.branchBit ≠ 0) h (by decide)

/-- A code can be read off with the flag or without it. -/
theorem or_and_largestCode (h : IsCode c) (hflag : flag = 0 ∨ flag = Alphabet.branchBit) :
    (c ||| flag) &&& Alphabet.largestCode = c := by
  rcases hflag with rfl | rfl
  · exact of_isCode (P := fun c => (c ||| 0) &&& Alphabet.largestCode = c) h (by decide)
  · exact of_isCode (P := fun c => (c ||| Alphabet.branchBit) &&& Alphabet.largestCode = c) h
      (by decide)

theorem ne_zero_of_isCode (h : IsCode c) : c ≠ 0 := by
  rintro rfl
  exact Nat.lt_irrefl 0 h.1

/-! Bytes in place. -/

/-- The data goes on with `bs` from `position`. -/
def At (data : ByteArray) (position : Nat) (bs : List UInt8) : Prop :=
  bs <+: data.data.toList.drop position

theorem At.getElem? (h : At data position (b :: bs)) : data[position]? = some b := by
  obtain ⟨rest, h⟩ := h
  have hb : data.data.toList[position]? = some b := by
    rw [← List.head?_drop, ← h]
    rfl
  obtain ⟨hlt, hb⟩ := List.getElem?_eq_some_iff.mp hb
  exact getElem?_eq_some_iff.mpr ⟨hlt, hb⟩

theorem At.byteAt (h : At data position (b :: bs)) : byteAt data position = .ok b := by
  rw [Scan.byteAt, h.getElem?]

theorem At.append {cs : List UInt8} (h : At data position (bs ++ cs)) :
    At data position bs ∧ At data (position + bs.length) cs := by
  obtain ⟨rest, h⟩ := h
  constructor
  · exact ⟨cs ++ rest, by rw [← h, List.append_assoc]⟩
  · exact ⟨rest, by rw [← List.drop_drop, ← h, List.append_assoc, List.drop_left]⟩

theorem At.tail (h : At data position (b :: bs)) : At data (position + 1) bs :=
  (At.append (show At data position ([b] ++ bs) from h)).2

/-! Reading what was written. -/

theorem readLink_littleEndian {count : Nat}
    (h : At data position (LinkWidth.littleEndian count n)) (hn : n < 256 ^ count) :
    readLink data position count = .ok n := by
  induction count generalizing position n with
  | zero =>
    rw [Nat.pow_zero] at hn
    rw [readLink, Nat.lt_one_iff.mp hn]
  | succ count ih =>
    rw [LinkWidth.littleEndian] at h
    rw [Nat.pow_succ] at hn
    have hrest := ih h.tail (Nat.div_lt_of_lt_mul (by rwa [Nat.mul_comm]))
    have hlow : n.toUInt8.toNat = n % 256 := UInt8.toNat_ofNat'
    have hn : n % 256 + 256 * (n / 256) = n := Nat.mod_add_div n 256
    simp only [readLink, h.byteAt, hrest, bind, Except.bind, pure, Except.pure, hlow, hn]

theorem choose_of_getElem? (h : data[position]? = some b) : choose w data key position =
    if b &&& Alphabet.largestCode = key then readLink data (position + 1) w.bytes
    else if b &&& Alphabet.largestCode = 0 then .error .noMatch
    else choose w data key (position + 1 + w.bytes) := by
  rw [choose]
  split
  next hnone =>
    rw [h] at hnone
    cases hnone
  next b' hb' =>
    rw [h] at hb'
    cases hb'
    rfl

/-- A branch leads where its list of links says. -/
theorem choose_branchBytes (h : At data position (Layout.branchBytes w start flag links))
    (hflag : flag = 0 ∨ flag = Alphabet.branchBit) (hcode : ∀ l ∈ links, IsCode l.1)
    (hreach : ∀ l ∈ links, start l.2 < 256 ^ w.bytes) (hkey : key ≠ 0) :
    choose w data key position = match links.lookup key with
      | some id => .ok (start id)
      | none => .error .noMatch := by
  induction links generalizing position flag with
  | nil =>
    rw [choose_of_getElem? h.getElem?, show (0 : UInt8) &&& Alphabet.largestCode = 0 from rfl,
      if_neg hkey.symm, if_pos rfl]
    rfl
  | cons l links ih =>
    obtain ⟨code, id⟩ := l
    obtain ⟨hc, hcode⟩ := List.forall_mem_cons.mp hcode
    obtain ⟨hr, hreach⟩ := List.forall_mem_cons.mp hreach
    rw [Layout.branchBytes] at h
    obtain ⟨hlink, hrest⟩ := h.tail.append
    rw [LinkWidth.length_littleEndian] at hrest
    have hmask := or_and_largestCode hc hflag
    have hread := readLink_littleEndian hlink hr
    have hlater := ih hrest (Or.inl rfl) hcode hreach
    rw [choose_of_getElem? h.getElem?, hmask, if_neg (ne_zero_of_isCode hc), hread, hlater,
      lookup_cons_ite]
    by_cases hck : code = key
    · rw [if_pos hck, if_pos hck.symm]
    · rw [if_neg hck, if_neg fun he => hck he.symm]

theorem scanFrom_leaf {e : Edit} (h : At data position e.leafBytes.data.toList) :
    scanFrom w data position keys = .ok position := by
  rw [e.toList_leafBytes] at h
  have hflag := leafBit_or_and e.backspaces
  cases keys with
  | nil => simp [scanFrom, h.byteAt, hflag, bind, Except.bind, pure, Except.pure]
  | cons key keys => simp [scanFrom, h.byteAt, hflag, bind, Except.bind, pure, Except.pure]

theorem scanFrom_nil (h : At data position (b :: bs)) (hleaf : b &&& Alphabet.leafBit = 0) :
    scanFrom w data position [] = .error .noMatch := by
  simp only [scanFrom, h.byteAt, hleaf, bind, Except.bind, ne_eq, not_true_eq_false, if_false]
  rfl

theorem scanFrom_cons (h : At data position (b :: bs)) (hleaf : b &&& Alphabet.leafBit = 0) :
    scanFrom w data position (key :: keys) =
      (advance w data position b key).bind fun next => scanFrom w data next keys := by
  simp only [scanFrom, h.byteAt, hleaf, bind, Except.bind, ne_eq, not_true_eq_false, if_false]

theorem scanFrom_branch {l : UInt8 × Nat}
    (h : At data position (Layout.branchBytes w start Alphabet.branchBit (l :: links)))
    (hcode : ∀ x ∈ l :: links, IsCode x.1)
    (hreach : ∀ x ∈ l :: links, start x.2 < 256 ^ w.bytes) (hkey : key ≠ 0) :
    scanFrom w data position (key :: keys) = match (l :: links).lookup key with
      | some id => scanFrom w data (start id) keys
      | none => .error .noMatch := by
  have hl := hcode l List.mem_cons_self
  have hchoose := choose_branchBytes h (Or.inr rfl) hcode hreach hkey
  rw [Layout.branchBytes] at h
  rw [scanFrom_cons h ((branchCode_flags hl).1), advance,
    if_pos ((branchCode_flags hl).2), hchoose]
  cases (l :: links).lookup key <;> rfl

/-- A chain takes its codes one by one. -/
theorem scanFrom_chain (w : LinkWidth) (keys : List UInt8) (h : At data position (codes ++ [0]))
    (hne : codes ≠ []) (hcode : ∀ c ∈ codes, IsCode c) :
    (∃ rest, keys = codes ++ rest ∧ scanFrom w data position keys =
      scanFrom w data (position + codes.length + 1) rest) ∨
    (¬ codes <+: keys ∧ scanFrom w data position keys = .error .noMatch) := by
  induction codes generalizing position keys with
  | nil => exact (hne rfl).elim
  | cons c codes ih =>
    obtain ⟨hc, hcode⟩ := List.forall_mem_cons.mp hcode
    rw [List.cons_append] at h
    cases keys with
    | nil => exact Or.inr ⟨by simp, scanFrom_nil h ((code_flags hc).1)⟩
    | cons key keys =>
      rw [scanFrom_cons h ((code_flags hc).1), advance, (code_flags hc).2]
      simp only [ne_eq, not_true_eq_false, if_false]
      by_cases hck : c = key
      · subst hck
        cases codes with
        | nil =>
          left
          refine ⟨keys, rfl, ?_⟩
          simp [h.tail.byteAt, bind, Except.bind, pure, Except.pure]
        | cons d codes =>
          have hd := ne_zero_of_isCode (hcode d List.mem_cons_self)
          have hstep : ((byteAt data (position + 1)).bind fun next =>
              pure (if next = 0 then position + 2 else position + 1)) =
                (.ok (position + 1) : Except Halt Nat) := by
            simp [h.tail.byteAt, Except.bind, pure, Except.pure, hd]
          simp only [not_true_eq_false, if_false, bind, hstep]
          rcases ih keys h.tail (by simp) hcode with ⟨rest, rfl, hrest⟩ | ⟨hno, hrest⟩
          · refine Or.inl ⟨rest, rfl, ?_⟩
            simp only [Except.bind, hrest, List.length_cons]
            congr 1
            omega
          · exact Or.inr ⟨fun hp => hno (List.cons_prefix_cons.mp hp).2, hrest⟩
      · rw [if_pos hck]
        exact Or.inr ⟨fun hp => hck (List.cons_prefix_cons.mp hp).1, rfl⟩

end Scan
end Emend
