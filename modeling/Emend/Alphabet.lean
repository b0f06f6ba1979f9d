/-! The characters of a typo and their key codes. Codes leave the two high bits of a byte free. -/
namespace Emend

/-- Marks the edge of a word at either end of a typo. -/
def boundary : Char := ':'

namespace Alphabet

/-- The code of the letter `a`; the other letters follow it in order. -/
def letterCode : UInt8 := 0x04

/-- The code of the space key, which a word boundary stands for. -/
def spaceCode : UInt8 := 0x2C

/-- The code of the apostrophe key. -/
def quoteCode : UInt8 := 0x34

/-- Set in the first byte of a leaf. -/
def leafBit : UInt8 := 0x80

/-- Set in the first byte of a branch. -/
def branchBit : UInt8 := 0x40

/-- The largest code that leaves both bits clear. -/
def largestCode : UInt8 := 0x3F

/-- The apostrophe. -/
def quote : Char := '\x27'

def isLetter (c : Char) : Bool := 'a' ≤ c && c ≤ 'z'

def code? (c : Char) : Option UInt8 :=
  if isLetter c then some (letterCode + (c.toNat - 'a'.toNat).toUInt8)
  else if c = quote then some quoteCode
  else if c = boundary then some spaceCode
  else none

/-- A character that has a code. -/
def contains (c : Char) : Bool := (code? c).isSome

/-- Every character that has a code, as messages list them. -/
def chars : List Char :=
  [quote, boundary] ++ (List.range 26).map fun i => Char.ofNat ('a'.toNat + i)

end Alphabet
end Emend
