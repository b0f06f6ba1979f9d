import Emend.Command.Compile
import Emend.Command.Inspect
import Emend.CommandLine.Arguments

/-! What a command line asks for is done. -/
namespace Emend.Command

variable {m : Type → Type} [Monad m] [FileAccess m]

/-- Runs a command line. `usual` is where the settings are if no other place is given. -/
def run (usual : Path) (a : Arguments) : m (Except CommandError String) := do
  match ← Settings.load a.config usual with
  | .error e => return .error (.settings e)
  | .ok settings => match a.action with
    | .compile =>
      compile {
        dictionaries := a.dictionaries
        output := a.output
        format := a.format
        wordList := a.wordList
        denyWarnings := a.denyWarnings } settings
    | .inspect => inspect a.dictionaries a.wordList settings

end Emend.Command
