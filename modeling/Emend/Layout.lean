import Emend.Entry

/-! Where each entry begins, and the bytes that the entries make there. -/
namespace Emend

/-- `offsets` holds the first byte of each entry. -/
structure Layout where
  width : LinkWidth
  offsets : Array UInt32
  size : UInt32
  deriving DecidableEq, Repr

namespace Layout

/-- Goes through the entries from byte `position`. Fails with the first position past an entry's
end that a link could not hold. -/
def placeFrom (w : LinkWidth) (offsets : Array UInt32) (position : Nat) :
    List Entry → Except Nat Layout
  | [] => .ok ⟨w, offsets, position.toUInt32⟩
  | e :: rest =>
    let next := position + e.byteLength w
    if w.reach < next then .error next
    else placeFrom w (offsets.push position.toUInt32) next rest

def under (w : LinkWidth) (entries : List Entry) : Except Nat Layout :=
  placeFrom w #[] 0 entries

/-- The narrowest layout whose links reach the whole table. -/
def narrowest (dictionary : String) (entries : List Entry) : Except CompileError Layout :=
  match under .two entries with
  | .ok layout => .ok layout
  | .error _ => match under .three entries with
    | .ok layout => .ok layout
    | .error size => .error (.tableTooLarge dictionary size)

/-- Appends the children of a branch; only the code of the first carries the flag. What was written
before a failure stays. -/
def writeChildren (l : Layout) (flag : UInt8) :
    List (UInt8 × Nat) → ByteArray → ByteArray × Option CompileError
  | [], out => (out.push 0, none)
  | (code, child) :: rest, out =>
    let out := out.push (code ||| flag)
    match l.offsets[child]? with
    | none => (out, some (.linkTooFar child l.width.bytes))
    | some offset => match l.width.encode offset.toNat with
      | .error e => (out, some e)
      | .ok link => l.writeChildren 0 rest (link.foldl ByteArray.push out)

/-- Appends the bytes of one entry. -/
def writeEntry (l : Layout) (out : ByteArray) : Entry → ByteArray × Option CompileError
  | .leaf _ edit => (out ++ edit.leafBytes, none)
  | .chain codes _ => ((codes.foldl ByteArray.push out).push 0, none)
  | .branch children => l.writeChildren Alphabet.branchBit children out

/-- Appends the bytes of entries in order and stops at the first failure. -/
def writeEntries (l : Layout) (out : ByteArray) : List Entry → Except CompileError ByteArray
  | [] => .ok out
  | e :: rest => match l.writeEntry out e with
    | (_, some err) => .error err
    | (out, none) => l.writeEntries out rest

/-- The bytes of a table, which must be as many as the layout says. -/
def encode (l : Layout) (entries : List Entry) : Except CompileError ByteArray :=
  match l.writeEntries ByteArray.empty entries with
  | .error e => .error e
  | .ok data =>
    if data.size = l.size.toNat then .ok data
    else .error (.unexpectedSize l.size.toNat data.size)

end Layout
end Emend
