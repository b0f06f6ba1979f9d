import Emend.Command.Sources

/-! The command that writes an artifact. It touches no file before everything is compiled. -/
namespace Emend

/-- What to compile and where to write it. -/
structure CompileJob where
  dictionaries : List Path
  output : Option Path
  format : Option Artifact.Format
  wordList : Option Path
  denyWarnings : Bool
  deriving DecidableEq, Repr

namespace CompileJob

/-- Without an output file, a last dictionary whose name ends like a header is one. -/
def splitOutput (r : CompileJob) : List Path × Option Path :=
  match r.output, r.dictionaries.getLast? with
  | none, some last =>
    if last.extension? = some "h" then (r.dictionaries.dropLast, some last)
    else (r.dictionaries, none)
  | output, _ => (r.dictionaries, output)

/-- The file to write. -/
def target (output : Option Path) (format : Artifact.Format) (dictionaries : List Path) : Path :=
  match output with
  | some path => path
  | none => format.fileBeside (dictionaries.head?.getD ⟨""⟩)

end CompileJob

namespace Command

variable {m : Type → Type} [Monad m] [FileAccess m]

def compileReport (a : Artifact) (path : Path) : String :=
  "Processed " ++ toString a.pairCount ++ " autocorrection entries to table with "
    ++ toString a.data.size ++ " bytes.\nWrote autocorrection data to " ++ path.text ++ "\n"

def compile (r : CompileJob) (settings : Settings) : m (Except CommandError String) := do
  let (paths, output) := r.splitOutput
  let format := (r.format.or settings.format).getD .header
  match ← gather paths r.wordList settings (r.denyWarnings || settings.denyWarnings) with
  | .error e => return .error e
  | .ok ds => match Artifact.compile ds with
    | .error e => return .error (.compile e)
    | .ok a =>
      let path := CompileJob.target output format paths
      match ← FileAccess.write path (format.encode a) with
      | .error e => return .error (.unwritable path e)
      | .ok () => return .ok (compileReport a path)

end Command
end Emend
