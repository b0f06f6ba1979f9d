import Emend.Artifact.Binary
import Emend.Artifact.Header
import Emend.Artifact.Json
import Emend.Path

/-! The forms in which an artifact is written. -/
namespace Emend.Artifact

inductive Format
  | header
  | json
  | binary
  deriving DecidableEq, Repr

namespace Format

def name : Format → String
  | header => "header"
  | json => "json"
  | binary => "bincode"

def ofName? (s : String) : Option Format :=
  [header, json, binary].find? fun f => f.name == s

/-- The ending of file names in this format. -/
def extension : Format → String
  | header => "h"
  | json => "json"
  | binary => "bin"

/-- The format of a file that can be read back, by the ending of its name. -/
def ofReadableExtension? (ext : String) : Option Format :=
  [json, binary].find? fun f => f.extension == ext

def ofPath? (p : Path) : Option Format := p.extension?.bind ofReadableExtension?

def encode : Format → Artifact → ByteArray
  | header, a => (Header.render a).toUTF8
  | json, a => Json.encode a
  | binary, a => Binary.encode a

/-- The name of an output file without its ending. -/
def stem : String := "autocorrect_data"

/-- The output file beside the first dictionary. -/
def fileBeside (f : Format) (firstDictionary : Path) : Path :=
  (firstDictionary.parent?.getD ⟨""⟩).join (stem ++ "." ++ f.extension)

end Format
end Emend.Artifact
