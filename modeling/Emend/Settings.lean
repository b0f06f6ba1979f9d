import Emend.Artifact.Format
import Emend.FileAccess
import Emend.Json.Parser

/-! Settings from a file. Arguments of the command line go before them. -/
namespace Emend

structure Settings where
  wordList : Option Path := none
  format : Option Artifact.Format := none
  minTypoLength : Option Nat := none
  denyWarnings : Bool := false
  deriving DecidableEq, Repr

/-- Why there are no settings. -/
inductive SettingsError
  | unreadable (path : Path) (why : TextError)
  | unparsable (path : Path)
  deriving DecidableEq, Repr

def SettingsError.message : SettingsError → String
  | .unreadable path why => "Failed to read config file: " ++ path.text ++ ": " ++ why.message
  | .unparsable path => "Failed to parse config file: " ++ path.text

namespace Settings

def names : List String := ["word_list", "format", "min_typo_length", "deny_warnings"]

/-- A format by its name, or as an object that has the name as its one field, with nothing in it. -/
def toFormat? : Json → Option Artifact.Format
  | .object [(name, .null)] => (String.fromUTF8? name).bind Artifact.Format.ofName?
  | j => j.text?.bind Artifact.Format.ofName?

def toPath? (j : Json) : Option Path := j.text?.map Path.mk

/-- Reads a value that need not be there. -/
def orDefault {α : Type} (read : Json → Option α) (default : α) : Option Json → Option α
  | none => some default
  | some j => read j

/-- Settings from an object, all of whose fields must be known, or from a list. -/
def ofJson? (j : Json) : Option Settings :=
  if !j.hasOnly names then none
  else match j.fields? names with
    | some [wordList, format, minTypoLength, denyWarnings] => do
      return {
        wordList := ← orDefault (Json.optional? toPath?) none wordList
        format := ← orDefault (Json.optional? toFormat?) none format
        minTypoLength :=
          ← orDefault (Json.optional? (Json.natUpTo? 0xFFFFFFFFFFFFFFFF)) none minTypoLength
        denyWarnings := ← orDefault Json.bool? false denyWarnings }
    | _ => none

def ofBytes (path : Path) (bytes : ByteArray) : Except SettingsError Settings :=
  match String.fromUTF8? bytes with
  | none => .error (.unreadable path .notUtf8)
  | some _ => match (Json.parse bytes.data.toList).bind ofJson? with
    | some settings => .ok settings
    | none => .error (.unparsable path)

/-- The usual place below the directory for settings. -/
def usualPath (directory : Path) : Path := (directory.join "autocorrect-trie").join "config.json"

variable {m : Type → Type} [Monad m] [FileAccess m]

/-- Settings from a file that must be there. -/
def readFrom (path : Path) : m (Except SettingsError Settings) := do
  match ← FileAccess.read path with
  | .ok bytes => return ofBytes path bytes
  | .error e => return .error (.unreadable path (.unreadable e.why))

/-- A file that is not there to be opened. -/
def isAbsent : ReadFailure → Bool
  | .opening .notFound | .opening .notDirectory | .opening .nameTooLong
  | .opening .zeroByteInName => true
  | _ => false

/-- Settings from the given file, or from the usual one if there is one. -/
def load (given : Option Path) (usual : Path) : m (Except SettingsError Settings) := do
  match given with
  | some path => readFrom path
  | none => match ← FileAccess.read usual with
    | .ok bytes => return ofBytes usual bytes
    | .error e =>
      if isAbsent e then return .ok {} else return .error (.unreadable usual (.unreadable e.why))

end Settings
end Emend
