import Emend.CompileError

/-! How many bytes a link from a branch to another entry takes. -/
namespace Emend

/-- A number of bytes that no link has. -/
structure UnsupportedWidth where
  bytes : Nat
  deriving DecidableEq, Repr

def UnsupportedWidth.message (w : UnsupportedWidth) : String :=
  "unsupported link width: " ++ toString w.bytes

inductive LinkWidth
  | two
  | three
  deriving DecidableEq, Repr

namespace LinkWidth

def bytes : LinkWidth → Nat
  | two => 2
  | three => 3

/-- The largest offset that a link can hold. -/
def reach : LinkWidth → Nat
  | two => 0xFFFF
  | three => 0xFFFFFF

/-- Refuses a number of bytes that no link has. -/
def ofBytes (n : Nat) : Except UnsupportedWidth LinkWidth :=
  if n = 2 then .ok two
  else if n = 3 then .ok three
  else .error ⟨n⟩

def ofByte? (b : UInt8) : Option LinkWidth := (ofBytes b.toNat).toOption

def toByte (w : LinkWidth) : UInt8 := w.bytes.toUInt8

/-- The `count` low bytes of a number, lowest first. -/
def littleEndian : Nat → Nat → List UInt8
  | 0, _ => []
  | count + 1, n => n.toUInt8 :: littleEndian count (n / 256)

def encode (w : LinkWidth) (offset : Nat) : Except CompileError (List UInt8) :=
  if offset ≤ w.reach then .ok (littleEndian w.bytes offset)
  else .error (.linkTooFar offset w.bytes)

end LinkWidth
end Emend
