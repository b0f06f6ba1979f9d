import Emend.Artifact.Consistency
import Emend.Dictionary.Source
import Emend.Path
import Emend.Settings

/-! The ways in which a command fails. -/
namespace Emend

/-- Why a command failed. -/
inductive CommandError
  | settings (why : SettingsError)
  | noneGiven
  | tooManyGiven (count : Nat)
  | wordList (path : Path) (why : SourceError)
  | dictionary (path : Path) (why : SourceError)
  | warningsDenied (count : Nat)
  | compile (why : CompileError)
  | unwritable (path : Path) (why : FileError)
  | unopened (path : Path) (why : FileError)
  | artifact (why : ArtifactError)
  deriving DecidableEq, Repr

def CommandError.message : CommandError → String
  | .settings why => why.message
  | .noneGiven => "At least one dictionary file must be provided"
  | .tooManyGiven count =>
    "Current EEPROM settings can only index up to 8 dicts, got " ++ toString count
  | .wordList path why => "Failed to load word list: " ++ path.text ++ ": " ++ why.report
  | .dictionary path why => "Failed to load dictionary: " ++ path.text ++ ": " ++ why.report
  | .warningsDenied count => toString count ++ " dictionary warning(s) with --deny-warnings"
  | .compile why => "Failed to compile dictionaries: " ++ why.message
  | .unwritable path why => "Failed to create output file: " ++ path.text ++ ": " ++ why.message
  | .unopened path why => "Failed to open artifact: " ++ path.text ++ ": " ++ why.message
  | .artifact why => why.message

end Emend
