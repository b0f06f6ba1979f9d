import Emend.Artifact
import Emend.Dictionary.Acceptance

/-! Dictionaries from the bytes of a file. -/
namespace Emend

/-- A dictionary with the warnings that were raised while it was read. -/
structure VettedDictionary where
  dictionary : Dictionary
  warnings : List Warning
  deriving DecidableEq, Repr

/-- Why there is no dictionary. -/
inductive SourceError
  | unopened (path : String) (why : TextError)
  | unreadable (why : TextError)
  | badSyntax (line : Nat) (text : String)
  | invalid (why : Rejection)
  deriving DecidableEq, Repr

namespace SourceError

def message : SourceError → String
  | unopened path why => "failed to read " ++ path ++ ": " ++ why.message
  | unreadable why => "I/O error: " ++ why.message
  | badSyntax n text => "line " ++ toString n ++ ": invalid syntax: \"" ++ text ++ "\""
  | invalid why => why.message

/-- The error that lies behind this one, which a full report repeats. -/
def cause? : SourceError → Option TextError
  | unopened _ why | unreadable why => some why
  | _ => none

/-- The message with its cause. -/
def report (e : SourceError) : String :=
  match e.cause? with
  | some why => e.message ++ ": " ++ why.message
  | none => e.message

def ofLineError : LineError → SourceError
  | .unreadable why => unreadable why
  | .badSyntax n text => badSyntax n text

end SourceError

/-- Reads the pairs of a source. -/
def VettedDictionary.ofBytes (name : String) (source : List UInt8) (words : WordList)
    (least : Nat) : Except SourceError VettedDictionary :=
  match Line.parseAll source with
  | .error e => .error (.ofLineError e)
  | .ok ls => match accept words least ls with
    | .error e => .error (.invalid e)
    | .ok (pairs, warnings) => .ok ⟨⟨name, pairs⟩, warnings⟩

end Emend
