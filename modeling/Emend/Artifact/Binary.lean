import Emend.Artifact.Consistency

/-! Artifacts as bytes: numbers of fixed width, lowest byte first, and eight-byte counts before
texts and lists. A reader takes what it needs from the front and gives back the rest. -/
namespace Emend.Artifact.Binary

/-! ## Writing -/

def writeNat (out : ByteArray) (width n : Nat) : ByteArray :=
  (LinkWidth.littleEndian width n).foldl ByteArray.push out

def writeBytes (out bytes : ByteArray) : ByteArray := writeNat out 8 bytes.size ++ bytes

def writeText (out : ByteArray) (s : String) : ByteArray := writeBytes out s.toUTF8

def writeList {α : Type} (write : ByteArray → α → ByteArray) (out : ByteArray) (xs : List α) :
    ByteArray :=
  xs.foldl write (writeNat out 8 xs.length)

def writePair (out : ByteArray) (p : Pair) : ByteArray :=
  writeText (writeText out p.typo) p.correction

def writeRegion (out : ByteArray) (d : Region) : ByteArray :=
  let out := writeText out d.name
  let out := writeNat out 4 d.offset.toNat
  let out := writeNat out 2 d.shortest.toNat
  let out := writeNat out 2 d.longest.toNat
  let out := writeNat out 4 d.size.toNat
  writeList writePair (out.push d.linkWidth.toByte) d.pairs

def encode (a : Artifact) : ByteArray :=
  writeBytes (writeList writeRegion ByteArray.empty a.regions) a.data

/-! ## Reading -/

abbrev Reader (α : Type) := List UInt8 → Option (α × List UInt8)

def readNat : Nat → Reader Nat
  | 0, bs => some (0, bs)
  | _ + 1, [] => none
  | width + 1, b :: bs => do
    let (high, bs) ← readNat width bs
    return (b.toNat + 256 * high, bs)

/-- Exactly `count` bytes, pushed onto `out`. -/
def readBytesOnto (out : ByteArray) : Nat → Reader ByteArray
  | 0, bs => some (out, bs)
  | _ + 1, [] => none
  | count + 1, b :: bs => readBytesOnto (out.push b) count bs

def readBytes : Reader ByteArray := fun bs => do
  let (count, bs) ← readNat 8 bs
  readBytesOnto ByteArray.empty count bs

/-- Bytes that are no UTF-8 are no text. -/
def readText : Reader String := fun bs => do
  let (bytes, bs) ← readBytes bs
  let s ← String.fromUTF8? bytes
  return (s, bs)

/-- `done` holds the elements already read, last first. -/
def readListOnto {α : Type} (read : Reader α) (done : List α) : Nat → Reader (List α)
  | 0, bs => some (done.reverse, bs)
  | count + 1, bs => do
    let (x, bs) ← read bs
    readListOnto read (x :: done) count bs

def readList {α : Type} (read : Reader α) : Reader (List α) := fun bs => do
  let (count, bs) ← readNat 8 bs
  readListOnto read [] count bs

def readPair : Reader Pair := fun bs => do
  let (typo, bs) ← readText bs
  let (correction, bs) ← readText bs
  return (⟨typo, correction⟩, bs)

def readWidth : Reader LinkWidth := fun bs => do
  let (b, bs) ← readNat 1 bs
  let w ← LinkWidth.ofByte? b.toUInt8
  return (w, bs)

def readRegion : Reader Region := fun bs => do
  let (name, bs) ← readText bs
  let (offset, bs) ← readNat 4 bs
  let (shortest, bs) ← readNat 2 bs
  let (longest, bs) ← readNat 2 bs
  let (size, bs) ← readNat 4 bs
  let (linkWidth, bs) ← readWidth bs
  let (pairs, bs) ← readList readPair bs
  return ({
    name
    offset := offset.toUInt32
    shortest := shortest.toUInt16
    longest := longest.toUInt16
    size := size.toUInt32
    linkWidth
    pairs }, bs)

def read : Reader Artifact := fun bs => do
  let (regions, bs) ← readList readRegion bs
  let (data, bs) ← readBytes bs
  return (⟨regions, data⟩, bs)

/-- The artifact at the front of the bytes; what follows it is not looked at. -/
def decode (bytes : ByteArray) : Except ArtifactError Artifact :=
  match read bytes.data.toList with
  | some (a, _) => a.verify
  | none => .error .badBinary

end Emend.Artifact.Binary
