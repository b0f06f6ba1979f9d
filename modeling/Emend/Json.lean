/-! JSON values. Strings are kept as the bytes they denote and numbers as they are written, so that
a value can also be skipped whose strings are no text or whose numbers are too large. -/
namespace Emend

inductive Json where
  | null
  | bool (value : Bool)
  | number (literal : List UInt8)
  | string (bytes : ByteArray)
  | array (items : List Json)
  | object (fields : List (ByteArray × Json))

namespace Json

def text (s : String) : Json := string s.toUTF8

/-- The decimal digits of a number. -/
def digits (n : Nat) : List UInt8 := (Nat.toDigits 10 n).map fun c => c.toNat.toUInt8

def nat (n : Nat) : Json := number (digits n)

/-- A list of named values. -/
def record (fields : List (String × Json)) : Json :=
  object (fields.map fun (name, value) => (name.toUTF8, value))

/-- The text of a string whose bytes are UTF-8. -/
def text? : Json → Option String
  | string bytes => String.fromUTF8? bytes
  | _ => none

def isDigit (b : UInt8) : Bool := 0x30 ≤ b && b ≤ 0x39

def value (digits : List UInt8) : Nat :=
  digits.foldl (fun n b => 10 * n + (b.toNat - 0x30)) 0

/-- The value of a number written with digits alone. -/
def nat? : Json → Option Nat
  | number literal => if literal.all isDigit then some (value literal) else none
  | _ => none

/-- A natural number up to `largest`. -/
def natUpTo? (largest : Nat) (j : Json) : Option Nat := do
  let n ← j.nat?
  if n ≤ largest then some n else none

def bool? : Json → Option Bool
  | bool b => some b
  | _ => none

def items? : Json → Option (List Json)
  | array items => some items
  | _ => none

/-- A value that may also be null. -/
def optional? {α : Type} (read : Json → Option α) : Json → Option (Option α)
  | null => some none
  | j => (read j).map some

/-- The fields of an object, if all their names are text. -/
def namedFields? (fields : List (ByteArray × Json)) : Option (List (String × Json)) :=
  fields.mapM fun (name, value) => (String.fromUTF8? name).map (·, value)

/-- The values of the named fields in the order of the names, from an object that has none of them
twice, or from a list that gives them in that order and may end early. -/
def fields? (names : List String) : Json → Option (List (Option Json))
  | array items =>
    if items.length ≤ names.length then
      some (items.map some ++ List.replicate (names.length - items.length) none)
    else none
  | object fields => do
    let fields ← namedFields? fields
    if names.all fun name => (fields.filter (·.1 == name)).length ≤ 1 then
      some (names.map fun name => fields.lookup name)
    else none
  | _ => none

/-- Whether an object has no other fields than the named ones. -/
def hasOnly (names : List String) : Json → Bool
  | object fields => match namedFields? fields with
    | some fields => fields.all fun (name, _) => names.contains name
    | none => false
  | _ => true

end Json
end Emend
