import Emend.Json

/-! JSON text as tokens, read one byte at a time. -/
namespace Emend.Json

inductive Token
  | openArray
  | closeArray
  | openObject
  | closeObject
  | colon
  | comma
  | scalar (value : Json)

/-! ## Numbers -/

/-- Digits, signs, points and exponent letters. A number is the longest run of them. -/
def isNumberByte (b : UInt8) : Bool :=
  isDigit b || b == 0x2B || b == 0x2D || b == 0x2E || b == 0x45 || b == 0x65

/-- At least one digit and nothing else. -/
def isDigits (bs : List UInt8) : Bool := !bs.isEmpty && bs.all isDigit

/-- Nothing, or an exponent with digits. -/
def isExponent : List UInt8 → Bool
  | [] => true
  | e :: bs =>
    (e == 0x45 || e == 0x65) && match bs with
      | [] => false
      | sign :: rest => if sign == 0x2B || sign == 0x2D then isDigits rest else isDigits bs

/-- Nothing, or a point with digits, and then perhaps an exponent. -/
def isFraction : List UInt8 → Bool
  | 0x2E :: bs => !(bs.takeWhile isDigit).isEmpty && isExponent (bs.dropWhile isDigit)
  | bs => isExponent bs

/-- No digit follows a leading zero. -/
def isUnsigned : List UInt8 → Bool
  | 0x30 :: bs => isFraction bs
  | bs => !(bs.takeWhile isDigit).isEmpty && isFraction (bs.dropWhile isDigit)

def isNumber : List UInt8 → Bool
  | 0x2D :: bs => isUnsigned bs
  | bs => isUnsigned bs

/-! ## Strings -/

/-- The bytes of a code point below 2^16; halves of surrogate pairs give bytes that are no UTF-8. -/
def pointBytes (n : Nat) : List UInt8 :=
  if n < 0x80 then [n.toUInt8]
  else if n < 0x800 then [(0xC0 + n / 64).toUInt8, (0x80 + n % 64).toUInt8]
  else [(0xE0 + n / 4096).toUInt8, (0x80 + n / 64 % 64).toUInt8, (0x80 + n % 64).toUInt8]

/-- The bytes of the code point that a pair of surrogates stands for. -/
def pairBytes (high low : Nat) : List UInt8 :=
  String.utf8EncodeChar (Char.ofNat (0x10000 + (high - 0xD800) * 1024 + (low - 0xDC00)))

def isHighSurrogate (n : Nat) : Bool := 0xD800 ≤ n && n < 0xDC00

def isLowSurrogate (n : Nat) : Bool := 0xDC00 ≤ n && n < 0xE000

def hexValue? (b : UInt8) : Option Nat :=
  if isDigit b then some (b.toNat - 0x30)
  else if 0x41 ≤ b && b ≤ 0x46 then some (b.toNat - 0x37)
  else if 0x61 ≤ b && b ≤ 0x66 then some (b.toNat - 0x57)
  else none

/-- What a letter after a backslash stands for. -/
def escaped? (b : UInt8) : Option UInt8 :=
  if b = 0x22 ∨ b = 0x5C ∨ b = 0x2F then some b
  else if b = 0x62 then some 0x08
  else if b = 0x66 then some 0x0C
  else if b = 0x6E then some 0x0A
  else if b = 0x72 then some 0x0D
  else if b = 0x74 then some 0x09
  else none

/-- The bytes of a string so far. A high surrogate waits for its other half. -/
structure Partial where
  bytes : ByteArray
  high : Option Nat

namespace Partial

def empty : Partial := ⟨ByteArray.empty, none⟩

/-- The bytes, a surrogate that found no other half included. -/
def flush (p : Partial) : ByteArray :=
  match p.high with
  | none => p.bytes
  | some h => (pointBytes h).foldl ByteArray.push p.bytes

def push (p : Partial) (b : UInt8) : Partial := ⟨p.flush.push b, none⟩

/-- Adds the code unit of a numeric escape. -/
def pushUnit (p : Partial) (n : Nat) : Partial :=
  match p.high with
  | some h =>
    if isLowSurrogate n then ⟨(pairBytes h n).foldl ByteArray.push p.bytes, none⟩
    else if isHighSurrogate n then ⟨p.flush, some n⟩
    else ⟨(pointBytes n).foldl ByteArray.push p.flush, none⟩
  | none =>
    if isHighSurrogate n then ⟨p.bytes, some n⟩
    else ⟨(pointBytes n).foldl ByteArray.push p.bytes, none⟩

end Partial

/-! ## The scanner -/

/-- Where the scanner stands: between tokens, or in a word whose `rest` must come, a number whose
bytes are kept last first, a string, an escape, or a numeric escape that lacks `left` digits. -/
inductive Scanner
  | between
  | word (rest : List UInt8) (value : Json)
  | number (reversed : List UInt8)
  | string (sofar : Partial)
  | escape (sofar : Partial)
  | unit (sofar : Partial) (left value : Nat)

namespace Scanner

/-- A byte that begins a token, or is one, or is white space. -/
def start (b : UInt8) : Option (Scanner × Option Token) :=
  if b = 0x20 ∨ b = 0x09 ∨ b = 0x0A ∨ b = 0x0D then some (between, none)
  else if b = 0x5B then some (between, some .openArray)
  else if b = 0x5D then some (between, some .closeArray)
  else if b = 0x7B then some (between, some .openObject)
  else if b = 0x7D then some (between, some .closeObject)
  else if b = 0x3A then some (between, some .colon)
  else if b = 0x2C then some (between, some .comma)
  else if b = 0x22 then some (string .empty, none)
  else if b = 0x6E then some (word [0x75, 0x6C, 0x6C] .null, none)
  else if b = 0x74 then some (word [0x72, 0x75, 0x65] (.bool true), none)
  else if b = 0x66 then some (word [0x61, 0x6C, 0x73, 0x65] (.bool false), none)
  else if isNumberByte b then some (number [b], none)
  else none

/-- The state after a byte that does not end a number, with the token that the byte completes. -/
def step : Scanner → UInt8 → Option (Scanner × Option Token)
  | between, b => start b
  | word [] _, _ => none
  | word [c] value, b => if b = c then some (between, some (.scalar value)) else none
  | word (c :: rest) value, b => if b = c then some (word rest value, none) else none
  | number reversed, b => some (number (b :: reversed), none)
  | string sofar, b =>
    if b = 0x22 then some (between, some (.scalar (.string sofar.flush)))
    else if b = 0x5C then some (escape sofar, none)
    else if b < 0x20 then none
    else some (string (sofar.push b), none)
  | escape sofar, b =>
    if b = 0x75 then some (unit sofar 4 0, none)
    else (escaped? b).map fun c => (string (sofar.push c), none)
  | unit sofar left value, b =>
    (hexValue? b).map fun d =>
      let value := 16 * value + d
      if left ≤ 1 then (string (sofar.pushUnit value), none)
      else (unit sofar (left - 1) value, none)

/-- The number that ends at a byte which cannot belong to it. -/
def finishNumber (reversed : List UInt8) : Option Token :=
  let literal := reversed.reverse
  if isNumber literal then some (.scalar (.number literal)) else none

end Scanner
end Emend.Json
