import Emend.Json

/-! JSON as text with two columns of indentation for each level. -/
namespace Emend.Json

def pushAll (out : ByteArray) (bytes : List UInt8) : ByteArray := bytes.foldl ByteArray.push out

def lowerHexDigit (n : UInt8) : UInt8 := if n < 10 then 0x30 + n else 0x61 + (n - 10)

/-- A byte of a string. Quotes, backslashes and controls are escaped and all else stands for
itself. -/
def escapeByte (b : UInt8) : List UInt8 :=
  if b = 0x22 then [0x5C, 0x22]
  else if b = 0x5C then [0x5C, 0x5C]
  else if b = 0x08 then [0x5C, 0x62]
  else if b = 0x09 then [0x5C, 0x74]
  else if b = 0x0A then [0x5C, 0x6E]
  else if b = 0x0C then [0x5C, 0x66]
  else if b = 0x0D then [0x5C, 0x72]
  else if b < 0x20 then [0x5C, 0x75, 0x30, 0x30, lowerHexDigit (b / 16), lowerHexDigit (b % 16)]
  else [b]

def printString (out bytes : ByteArray) : ByteArray :=
  (bytes.data.foldl (fun out b => pushAll out (escapeByte b)) (out.push 0x22)).push 0x22

def printAscii (out : ByteArray) (s : String) : ByteArray := out ++ s.toUTF8

/-- A new line for a value at `depth`. -/
def newLine (depth : Nat) (out : ByteArray) : ByteArray :=
  pushAll (out.push 0x0A) (List.replicate (2 * depth) 0x20)

mutual
/-- Appends a value that begins at `depth`. -/
def printAt (depth : Nat) (out : ByteArray) : Json → ByteArray
  | null => printAscii out "null"
  | bool true => printAscii out "true"
  | bool false => printAscii out "false"
  | number literal => pushAll out literal
  | string bytes => printString out bytes
  | array [] => printAscii out "[]"
  | array (item :: items) =>
    let out := printAt (depth + 1) (newLine (depth + 1) (out.push 0x5B)) item
    (newLine depth (printItems (depth + 1) out items)).push 0x5D
  | object [] => printAscii out "\x7b\x7d"
  | object ((name, value) :: fields) =>
    let out := printString (newLine (depth + 1) (out.push 0x7B)) name
    let out := printAt (depth + 1) (printAscii out ": ") value
    (newLine depth (printFields (depth + 1) out fields)).push 0x7D

/-- Appends the items behind the first, each after a comma and on a line of its own. -/
def printItems (depth : Nat) (out : ByteArray) : List Json → ByteArray
  | [] => out
  | item :: items => printItems depth (printAt depth (newLine depth (out.push 0x2C)) item) items

/-- Appends the fields behind the first, each after a comma and on a line of its own. -/
def printFields (depth : Nat) (out : ByteArray) : List (ByteArray × Json) → ByteArray
  | [] => out
  | (name, value) :: fields =>
    let out := printString (newLine depth (out.push 0x2C)) name
    printFields depth (printAt depth (printAscii out ": ") value) fields
end

def print (j : Json) : ByteArray := printAt 0 ByteArray.empty j

end Emend.Json
