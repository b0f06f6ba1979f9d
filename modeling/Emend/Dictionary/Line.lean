import Emend.Alphabet
import Emend.FileError
import Emend.Text.Blank
import Emend.Text.Lines
import Emend.Text.Lowercase

/-! Lines of a dictionary file. A line gives a pair as `typo -> correction`; blank lines and lines
that start with `#` say nothing. -/
namespace Emend

/-- A pair as it was read, with the number of its line. -/
structure Line where
  number : Nat
  typo : String
  correction : String
  deriving DecidableEq, Repr

/-- Why a source has no lines of this form. -/
inductive LineError
  | unreadable (why : TextError)
  | badSyntax (line : Nat) (text : String)
  deriving DecidableEq, Repr

namespace Line

/-- What stands before the first arrow and what stands after it. `before` holds the characters
already passed, last first. -/
def splitArrowFrom (before : List Char) : List Char → Option (List Char × List Char)
  | [] => none
  | '-' :: '>' :: after => some (before.reverse, after)
  | c :: cs => splitArrowFrom (c :: before) cs

def splitArrow (text : List Char) : Option (List Char × List Char) := splitArrowFrom [] text

/-- A typo is stored in lowercase, and a space in it marks the edge of a word. -/
def normalizeTypo (typo : List Char) : String :=
  String.ofList ((Text.lower typo).map fun c => if c = ' ' then boundary else c)

/-- The two sides of the first arrow, trimmed. There must be something on the left. -/
def sides? (text : List Char) : Option (List Char × List Char) :=
  match splitArrow text with
  | none => none
  | some (typo, correction) =>
    let typo := Text.trim typo
    if typo.isEmpty then none else some (typo, Text.trim correction)

/-- Reads one line; one that says nothing gives no pair. -/
def parse (number : Nat) (text : String) : Except LineError (Option Line) :=
  let trimmed := Text.trim text.toList
  if trimmed.isEmpty || trimmed.head? == some '#' then .ok none
  else match sides? trimmed with
    | none => .error (.badSyntax number (String.ofList trimmed))
    | some (typo, correction) =>
      .ok (some ⟨number, normalizeTypo typo, String.ofList correction⟩)

/-- Reads lines from number `number` on and stops at the first that is wrong. `done` holds the
pairs already found, last first. -/
def parseFrom (number : Nat) (done : List Line) : List (List UInt8) → Except LineError (List Line)
  | [] => .ok done.reverse
  | bytes :: rest => match Text.decodeLine bytes with
    | none => .error (.unreadable .notUtf8)
    | some text => match parse number text with
      | .error e => .error e
      | .ok none => parseFrom (number + 1) done rest
      | .ok (some line) => parseFrom (number + 1) (line :: done) rest

/-- The pairs of a source, its first line being line 1. -/
def parseAll (source : List UInt8) : Except LineError (List Line) :=
  parseFrom 1 [] (Text.splitLines source)

end Line
end Emend
