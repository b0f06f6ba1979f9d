import Emend.Alphabet
import Emend.CompileError
import Emend.Pair

/-! What to erase and what to type when the last key of a typo is pressed. That key itself never
reaches the screen, so one character fewer than the typo has to be erased. -/
namespace Emend

/-- Erase `backspaces` characters, then type `suffix`. -/
structure Edit where
  backspaces : UInt8
  suffix : String
  deriving DecidableEq, Repr

/-- The typo without the boundaries at its two ends. -/
def stripBoundaries (typo : List Char) : List Char :=
  ((typo.dropWhile (· == boundary)).reverse.dropWhile (· == boundary)).reverse

def endsInBoundary (typo : List Char) : Bool := typo.getLast? == some boundary

/-- How many leading characters two texts share. -/
def sharedLength (s t : List Char) : Nat :=
  ((s.zip t).takeWhile fun (a, b) => a == b).length

def isAscii (s : String) : Bool := s.toList.all fun c => decide (c.toNat < 0x80)

namespace Pair

/-- The characters of the typo between its boundaries. -/
def stripped (p : Pair) : List Char := stripBoundaries p.typo.toList

/-- How many of those characters the correction starts with. -/
def kept (p : Pair) : Nat :=
  sharedLength p.stripped (p.correction.take p.stripped.length).copy.toList

/-- How many characters are to be erased. A typo that ends in a boundary is completed by the
space, so all of its other characters are on the screen. The number is negative if the correction
goes on where the typo ends. -/
def excess (p : Pair) : Int :=
  p.stripped.length - p.kept - 1 + (if endsInBoundary p.typo.toList then 1 else 0)

/-- What of the correction is to be typed. -/
def remainder (p : Pair) : String := (p.correction.drop p.kept).copy

end Pair

namespace Edit

/-- The shortest edit, if its number and its characters can be stored. -/
def ofPair (p : Pair) : Except CompileError Edit :=
  if p.excess < 0 ∨ Alphabet.largestCode.toNat < p.excess then
    .error (.tooManyBackspaces p.typo p.correction p.excess)
  else if isAscii p.remainder then
    .ok ⟨p.excess.toNat.toUInt8, p.remainder⟩
  else
    .error (.nonAsciiSuffix p.typo p.correction)

/-- The bytes of a leaf: the flagged count, the suffix, and a zero that ends it. -/
def leafBytes (e : Edit) : ByteArray :=
  (ByteArray.empty.push (Alphabet.leafBit ||| e.backspaces) ++ e.suffix.toUTF8).push 0

def byteLength (e : Edit) : Nat := e.suffix.utf8ByteSize + 2

/-- The screen after the edit; nothing if it holds fewer characters than are to be erased. -/
def apply (e : Edit) (typed : String) : Option String :=
  if e.backspaces.toNat ≤ typed.length then
    some ((typed.dropEnd e.backspaces.toNat).copy ++ e.suffix)
  else
    none

/-- The screen, from the start of the word, when the last key of `typo` is pressed. -/
def screenBefore (typo : String) : String :=
  let stripped := stripBoundaries typo.toList
  String.ofList (if endsInBoundary typo.toList then stripped else stripped.dropLast)

end Edit
end Emend
