import Emend.Artifact.Binary
import Emend.Proofs.Bytes
import Mathlib.Algebra.GroupWithZero.Nat

/-! The binary form of an artifact says where it ends: it is read back whatever follows it, no part
of it passes for an artifact, and nothing else is read as one. -/
namespace Emend.Artifact.Binary
open LinkWidth (littleEndian)

/-! The bytes of each kind of data. -/

def blockBytes (bs : List UInt8) : List UInt8 := littleEndian 8 bs.length ++ bs

def textBytes (s : String) : List UInt8 := blockBytes s.toUTF8.data.toList

def listBytes {α : Type} (bytes : α → List UInt8) (xs : List α) : List UInt8 :=
  littleEndian 8 xs.length ++ xs.flatMap bytes

def pairBytes (p : Pair) : List UInt8 := textBytes p.typo ++ textBytes p.correction

def regionBytes (d : Region) : List UInt8 :=
  textBytes d.name ++ (littleEndian 4 d.offset.toNat ++ (littleEndian 2 d.shortest.toNat ++
    (littleEndian 2 d.longest.toNat ++ (littleEndian 4 d.size.toNat ++
      (littleEndian 1 d.linkWidth.bytes ++ listBytes pairBytes d.pairs)))))

def artifactBytes (a : Artifact) : List UInt8 :=
  listBytes regionBytes a.regions ++ blockBytes a.data.data.toList

/-! A length takes one machine word, which is enough for what a memory can hold. -/

/-- A length that eight bytes can tell. -/
def CountFits (length : Nat) : Prop := length < 256 ^ 8

def TextFits (s : String) : Prop := CountFits s.utf8ByteSize

def PairFits (p : Pair) : Prop := TextFits p.typo ∧ TextFits p.correction

def RegionFits (d : Region) : Prop :=
  TextFits d.name ∧ CountFits d.pairs.length ∧ ∀ p ∈ d.pairs, PairFits p

/-- Every length in an artifact is a machine word. -/
def Fits (a : Artifact) : Prop :=
  (CountFits a.regions.length ∧ ∀ d ∈ a.regions, RegionFits d) ∧ CountFits a.data.size

instance : DecidablePred CountFits := fun n => inferInstanceAs (Decidable (n < 256 ^ 8))

instance : DecidablePred TextFits := fun s =>
  inferInstanceAs (Decidable (CountFits s.utf8ByteSize))

instance : DecidablePred PairFits := fun p =>
  inferInstanceAs (Decidable (TextFits p.typo ∧ TextFits p.correction))

instance : DecidablePred RegionFits := fun d => inferInstanceAs
  (Decidable (TextFits d.name ∧ CountFits d.pairs.length ∧ ∀ p ∈ d.pairs, PairFits p))

instance : DecidablePred Fits := fun a => inferInstanceAs
  (Decidable ((CountFits a.regions.length ∧ ∀ d ∈ a.regions, RegionFits d) ∧
    CountFits a.data.size))

variable {α β : Type} {width n count : Nat} {bs rest : List UInt8} {xs done : List α} {s : String}

/-! Writing. -/

/-- `write` appends the bytes of a value to what is there. -/
def Writes (write : ByteArray → α → ByteArray) (bytes : α → List UInt8) : Prop :=
  ∀ out x, (write out x).data.toList = out.data.toList ++ bytes x

theorem toList_writeNat (out : ByteArray) (width n : Nat) :
    (writeNat out width n).data.toList = out.data.toList ++ littleEndian width n :=
  toList_foldl_push

theorem writes_bytes : Writes writeBytes fun b => blockBytes b.data.toList := by
  intro out b
  have hlength : b.data.toList.length = b.size := rfl
  simp [writeBytes, blockBytes, toList_writeNat, hlength]

theorem writes_text : Writes writeText textBytes := fun out s => writes_bytes out s.toUTF8

theorem writes_list {write : ByteArray → α → ByteArray} {bytes : α → List UInt8}
    (h : Writes write bytes) : Writes (writeList write) (listBytes bytes) := by
  intro out xs
  have hall : ∀ out : ByteArray, (xs.foldl write out).data.toList =
      out.data.toList ++ xs.flatMap bytes := by
    induction xs with
    | nil => simp
    | cons x xs ih =>
      intro out
      simp [ih, h out x]
  simp [writeList, listBytes, hall, toList_writeNat]

theorem writes_pair : Writes writePair pairBytes := by
  intro out p
  simp [writePair, pairBytes, writes_text _ _]

theorem writes_region : Writes writeRegion regionBytes := by
  intro out d
  have hwidth : littleEndian 1 d.linkWidth.bytes = [d.linkWidth.toByte] := rfl
  simp [writeRegion, regionBytes, writes_text _ _, writes_list writes_pair _ _, toList_writeNat,
    hwidth]

theorem toList_encode (a : Artifact) : (encode a).data.toList = artifactBytes a := by
  simp [encode, artifactBytes, writes_bytes _ _, writes_list writes_region _ _]

/-! Reading. -/

/-- `read` takes the bytes of a value off the front, for each value that `fits`, and fails when its
input does not begin with such bytes. -/
def Reads (read : Reader α) (bytes : α → List UInt8) (fits : α → Prop) : Prop :=
  ∀ bs x rest, read bs = some (x, rest) ↔ fits x ∧ bs = bytes x ++ rest

theorem Reads.bind {read : Reader α} {bytes : α → List UInt8} {fits : α → Prop}
    (h : Reads read bytes fits) {f : α × List UInt8 → Option β} {y : β} :
    (read bs >>= f) = some y ↔
      ∃ x rest, (fits x ∧ bs = bytes x ++ rest) ∧ f (x, rest) = some y := by
  simp [Option.bind_eq_some_iff, h _ _ _]

theorem toNat_toUInt8 (n : Nat) : n.toUInt8.toNat = n % 256 := rfl

theorem reads_nat (width : Nat) : Reads (readNat width) (littleEndian width) (· < 256 ^ width) := by
  induction width with
  | zero =>
    intro bs n rest
    simp [readNat, littleEndian, eq_comm]
  | succ width ih =>
    intro bs n rest
    cases bs with
    | nil => simp [readNat, littleEndian]
    | cons b bs =>
      have hb := b.toNat_lt
      simp only [readNat, ih.bind, littleEndian, Nat.pow_succ]
      constructor
      · rintro ⟨high, _, ⟨hhigh, rfl⟩, h⟩
        cases h
        have hlow : (b.toNat + 256 * high).toUInt8 = b :=
          UInt8.toNat_inj.mp (by rw [toNat_toUInt8]; omega)
        have hhigh' : (b.toNat + 256 * high) / 256 = high := by omega
        refine ⟨by omega, ?_⟩
        simp only [hlow, hhigh', List.cons_append]
      · rintro ⟨hn, h⟩
        obtain ⟨rfl, rfl⟩ := List.cons.inj h
        refine ⟨n / 256, rest, ⟨by omega, rfl⟩, ?_⟩
        have hn : n.toUInt8.toNat + 256 * (n / 256) = n := by
          rw [toNat_toUInt8]
          omega
        rw [hn]
        rfl

theorem readBytesOnto_eq (out : ByteArray) (count : Nat) (bs : List UInt8) :
    readBytesOnto out count bs = if count ≤ bs.length then
      some ((bs.take count).foldl ByteArray.push out, bs.drop count) else none := by
  induction count generalizing out bs with
  | zero => rfl
  | succ count ih =>
    cases bs with
    | nil => rfl
    | cons b bs => simp [readBytesOnto, ih]

theorem reads_bytes : Reads readBytes (fun b => blockBytes b.data.toList) (CountFits ·.size) := by
  intro bs b rest
  simp only [readBytes, (reads_nat 8).bind, readBytesOnto_eq]
  constructor
  · rintro ⟨n, bs, ⟨hn, rfl⟩, h⟩
    split at h
    next hlength =>
      cases h
      have htaken : ((bs.take n).foldl ByteArray.push ByteArray.empty).data.toList = bs.take n :=
        toList_foldl_push
      have hsize : (bs.take n).length = n := List.length_take_of_le hlength
      refine ⟨?_, ?_⟩
      · change ((bs.take n).foldl ByteArray.push ByteArray.empty).data.toList.length < 256 ^ 8
        rwa [htaken, hsize]
      · rw [htaken, blockBytes, hsize, List.append_assoc, List.take_append_drop]
    next => cases h
  · rintro ⟨hsize, rfl⟩
    have hlength : b.data.toList.length = b.size := rfl
    refine ⟨b.size, b.data.toList ++ rest, ⟨hsize, by simp [blockBytes]⟩, ?_⟩
    have hle : b.size ≤ (b.data.toList ++ rest).length := by
      rw [List.length_append]
      omega
    rw [if_pos hle, List.take_left' hlength, List.drop_left' hlength, foldl_push_toList]

theorem reads_text : Reads readText textBytes TextFits := by
  intro bs s rest
  simp only [readText, reads_bytes.bind]
  simp only [Option.bind_eq_bind, Option.bind_eq_some_iff, fromUTF8?_eq_some]
  constructor
  · rintro ⟨_, rest, h, s, rfl, hs⟩
    cases hs
    exact h
  · intro h
    exact ⟨s.toUTF8, rest, h, s, rfl, rfl⟩

theorem readListOnto_eq_some {read : Reader α} {bytes : α → List UInt8} {fits : α → Prop}
    (h : Reads read bytes fits) : readListOnto read done count bs = some (xs, rest) ↔
      ∃ ys, ys.length = count ∧ (∀ y ∈ ys, fits y) ∧ xs = done.reverse ++ ys ∧
        bs = ys.flatMap bytes ++ rest := by
  induction count generalizing done bs with
  | zero => simp [readListOnto, eq_comm]
  | succ count ih =>
    simp only [readListOnto, h.bind, ih]
    constructor
    · rintro ⟨y, _, ⟨hy, rfl⟩, ys, rfl, hys, rfl, rfl⟩
      exact ⟨y :: ys, rfl, List.forall_mem_cons.mpr ⟨hy, hys⟩, by simp, by simp⟩
    · rintro ⟨_ | ⟨y, ys⟩, hlength, hys, rfl, rfl⟩
      · cases hlength
      · obtain ⟨hy, hys⟩ := List.forall_mem_cons.mp hys
        exact ⟨y, ys.flatMap bytes ++ rest, ⟨hy, by simp⟩, ys, Nat.succ.inj hlength, hys, by simp,
          rfl⟩

theorem reads_list {read : Reader α} {bytes : α → List UInt8} {fits : α → Prop}
    (h : Reads read bytes fits) : Reads (readList read) (listBytes bytes)
      fun xs => CountFits xs.length ∧ ∀ x ∈ xs, fits x := by
  intro bs xs rest
  simp only [readList, (reads_nat 8).bind, readListOnto_eq_some h, listBytes]
  constructor
  · rintro ⟨_, _, ⟨hn, rfl⟩, xs, rfl, hxs, rfl, rfl⟩
    exact ⟨⟨hn, hxs⟩, by simp⟩
  · rintro ⟨⟨hn, hxs⟩, rfl⟩
    exact ⟨xs.length, xs.flatMap bytes ++ rest, ⟨hn, by simp⟩, xs, rfl, hxs, rfl, rfl⟩

theorem reads_pair : Reads readPair pairBytes PairFits := by
  intro bs p rest
  simp only [readPair, reads_text.bind]
  constructor
  · rintro ⟨typo, _, ⟨htypo, rfl⟩, correction, _, ⟨hcorrection, rfl⟩, h⟩
    cases h
    exact ⟨⟨htypo, hcorrection⟩, by simp [pairBytes]⟩
  · rintro ⟨⟨htypo, hcorrection⟩, rfl⟩
    exact ⟨p.typo, textBytes p.correction ++ rest, ⟨htypo, by simp [pairBytes]⟩,
      p.correction, rest, ⟨hcorrection, rfl⟩, rfl⟩

theorem ofByte?_eq_some {b : UInt8} {w : LinkWidth} :
    LinkWidth.ofByte? b = some w ↔ b.toNat = w.bytes := by
  unfold LinkWidth.ofByte? LinkWidth.ofBytes
  split
  next hb =>
    cases w <;> simp [Except.toOption, LinkWidth.bytes, hb]
  next =>
    split <;> cases w <;> simp [Except.toOption, LinkWidth.bytes] <;> omega

theorem reads_width : Reads readWidth (fun w => littleEndian 1 w.bytes) fun _ => True := by
  intro bs w rest
  simp only [readWidth, (reads_nat 1).bind]
  simp only [Option.bind_eq_bind, Option.bind_eq_some_iff, ofByte?_eq_some, toNat_toUInt8]
  constructor
  · rintro ⟨n, rest, ⟨hn, rfl⟩, w, hw, h⟩
    cases h
    have hn : n = w.bytes := by omega
    exact ⟨trivial, by rw [hn]⟩
  · rintro ⟨-, rfl⟩
    have hw : w.bytes < 256 ∧ w.bytes % 256 = w.bytes := by cases w <;> decide
    exact ⟨w.bytes, rest, ⟨hw.1, rfl⟩, w, hw.2, rfl⟩

theorem reads_region : Reads readRegion regionBytes RegionFits := by
  intro bs d rest
  simp only [readRegion, reads_text.bind, (reads_nat _).bind, reads_width.bind,
    (reads_list reads_pair).bind]
  constructor
  · rintro ⟨name, _, ⟨hname, rfl⟩, offset, _, ⟨hoffset, rfl⟩, shortest, _, ⟨hshortest, rfl⟩,
      longest, _, ⟨hlongest, rfl⟩, size, _, ⟨hsize, rfl⟩, w, _, ⟨-, rfl⟩, pairs, _,
      ⟨hpairs, rfl⟩, h⟩
    cases h
    have hoffset : offset.toUInt32.toNat = offset := UInt32.toNat_ofNat_of_lt' hoffset
    have hshortest : shortest.toUInt16.toNat = shortest := UInt16.toNat_ofNat_of_lt' hshortest
    have hlongest : longest.toUInt16.toNat = longest := UInt16.toNat_ofNat_of_lt' hlongest
    have hsize : size.toUInt32.toNat = size := UInt32.toNat_ofNat_of_lt' hsize
    refine ⟨⟨hname, hpairs⟩, ?_⟩
    simp only [regionBytes, hoffset, hshortest, hlongest, hsize, List.append_assoc]
  · rintro ⟨⟨hname, hpairs⟩, rfl⟩
    simp only [regionBytes, List.append_assoc]
    refine ⟨d.name, _, ⟨hname, rfl⟩, d.offset.toNat, _, ⟨d.offset.toNat_lt, rfl⟩,
      d.shortest.toNat, _, ⟨d.shortest.toNat_lt, rfl⟩, d.longest.toNat, _,
      ⟨d.longest.toNat_lt, rfl⟩, d.size.toNat, _, ⟨d.size.toNat_lt, rfl⟩, d.linkWidth, _,
      ⟨trivial, rfl⟩, d.pairs, rest, ⟨hpairs, rfl⟩, ?_⟩
    simp

theorem reads_artifact : Reads read artifactBytes Fits := by
  intro bs a rest
  simp only [read, (reads_list reads_region).bind, reads_bytes.bind]
  constructor
  · rintro ⟨regions, _, ⟨hregions, rfl⟩, data, _, ⟨hdata, rfl⟩, h⟩
    cases h
    exact ⟨⟨hregions, hdata⟩, by simp [artifactBytes]⟩
  · rintro ⟨⟨hregions, hdata⟩, rfl⟩
    refine ⟨a.regions, _, ⟨hregions, ?_⟩, a.data, rest, ⟨hdata, rfl⟩, rfl⟩
    simp [artifactBytes]

/-! What is read is told by its own bytes alone. -/

section
variable {read : Reader α} {bytes : α → List UInt8} {fits : α → Prop} {x y : α}
  {part cut : List UInt8}

/-- A value and what follows its bytes cannot be told apart in two ways. -/
theorem Reads.unique (h : Reads read bytes fits) (hx : fits x) (hy : fits y)
    (heq : bytes x ++ rest = bytes y ++ cut) : x = y ∧ rest = cut := by
  have hread : read (bytes x ++ rest) = some (x, rest) := (h _ _ _).mpr ⟨hx, rfl⟩
  have hread' : read (bytes x ++ rest) = some (y, cut) := (h _ _ _).mpr ⟨hy, heq⟩
  rw [hread] at hread'
  cases hread'
  exact ⟨rfl, rfl⟩

/-- Bytes that stop short are refused: what they were read as would also be read from the whole,
with something left over. -/
theorem Reads.eq_none_of_part (h : Reads read bytes fits) (hx : fits x)
    (heq : bytes x = part ++ cut) (hcut : cut ≠ []) : read part = none := by
  cases hpart : read part with
  | none => rfl
  | some found =>
    obtain ⟨y, rest⟩ := found
    obtain ⟨hy, rfl⟩ := (h _ _ _).mp hpart
    have hwhole : bytes x ++ [] = bytes y ++ (rest ++ cut) := by simpa using heq
    have hnil := (h.unique hx hy hwhole).2
    exact (hcut (List.append_eq_nil_iff.mp hnil.symm).2).elim

end

variable {a : Artifact} {b part cut : ByteArray}

theorem decode_encode_append (h : Fits a) (x : ByteArray) : decode (encode a ++ x) = a.verify := by
  have hread : read (encode a ++ x).data.toList = some (a, x.data.toList) := by
    refine (reads_artifact _ _ _).mpr ⟨h, ?_⟩
    simp [toList_encode]
  rw [decode, hread]

theorem decode_part (h : Fits a) (heq : encode a = part ++ cut) (hcut : cut.size ≠ 0) :
    decode part = .error .badBinary := by
  have hbytes : artifactBytes a = part.data.toList ++ cut.data.toList := by
    rw [← toList_encode, heq]
    simp
  have hne : cut.data.toList ≠ [] := by
    intro hnil
    exact hcut (congrArg List.length hnil)
  rw [decode, reads_artifact.eq_none_of_part h hbytes hne]

theorem encode_prefix_of_decode (h : decode b = .ok a) : ∃ x, b = encode a ++ x := by
  unfold decode at h
  split at h
  next found rest hread =>
    have ha : found = a := by
      unfold verify at h
      split at h <;> cases h
      rfl
    obtain ⟨-, hbytes⟩ := (reads_artifact _ _ _).mp hread
    refine ⟨⟨rest.toArray⟩, ByteArray.ext (Array.ext' ?_)⟩
    simpa [toList_encode, ha] using hbytes
  next => cases h

/-- An artifact is read back from its bytes whatever follows them, or refused for what the check
finds. A part of its bytes is no artifact, and what is read as an artifact begins with its bytes. -/
theorem decode_encode_binary (a : Artifact) :
    (Fits a → ∀ x, (a.check = .ok () → decode (encode a ++ x) = .ok a) ∧
      ∀ why, a.check = .error why → decode (encode a ++ x) = .error (.inconsistent why)) ∧
    (Fits a → ∀ part cut, encode a = part ++ cut → cut.size ≠ 0 →
      decode part = .error .badBinary) ∧
    ∀ b, decode b = .ok a → ∃ x, b = encode a ++ x := by
  refine ⟨?_, fun h part cut => decode_part h, fun b => encode_prefix_of_decode⟩
  intro h x
  rw [decode_encode_append h x, verify]
  constructor
  · intro hcheck
    rw [hcheck]
  · intro why hcheck
    rw [hcheck]

/-- One region with a name of three bytes, and links of three bytes. -/
def sample (offset : UInt32) : Artifact where
  regions := [⟨"eé", offset, 3, 3, 2, .three, [⟨"hte", "the"⟩]⟩]
  data := ⟨#[0, 255]⟩

theorem decode_encode_binary_sample :
    decode (encode (sample 0) ++ ⟨#[7]⟩) = .ok (sample 0) ∧
    decode (encode (sample 1) ++ ⟨#[7]⟩) = .error (.inconsistent (.misplaced "eé" 1 0)) ∧
    decode ((encode (sample 0)).extract 0 40) = .error .badBinary ∧
    ∃ x, encode (sample 0) ++ ⟨#[7]⟩ = encode (sample 0) ++ x := by
  obtain ⟨hread, hpart, hprefix⟩ := decode_encode_binary (sample 0)
  have hfits : Fits (sample 0) := by decide
  have hwhole := (hread hfits ⟨#[7]⟩).1 rfl
  refine ⟨hwhole, ((decode_encode_binary (sample 1)).1 (by decide) _).2 _ rfl, ?_,
    hprefix _ hwhole⟩
  exact hpart hfits _ ((encode (sample 0)).extract 40 100) (by decide +kernel)
    (by decide +kernel)

end Emend.Artifact.Binary
