import Emend.CommandLine.Level

/-! What a whole command line says: options, the name of a command, more options, and files. -/
namespace Emend

/-- Everything that a command line can say. -/
structure Arguments where
  action : Action
  config : Option Path
  verbose : Bool
  quiet : Bool
  dictionaries : List Path
  output : Option Path
  format : Option Artifact.Format
  wordList : Option Path
  denyWarnings : Bool
  deriving DecidableEq, Repr

namespace CommandLine

/-- The arguments after the name of a command. -/
def parseCommand (l : Level) : List String → Except UsageError Level
  | [] => do
    let l ← l.close
    l.checkConflicts
    if l.files.isEmpty then throw .missingFiles
    return l
  | arg :: args => do parseCommand (← l.take Level.file arg) args

def actionNamed? : String → Option Action
  | "compile" => some .compile
  | "inspect" => some .inspect
  | _ => none

/-- The command that gives help knows the names of commands and its own. -/
def isCommandName (s : String) : Bool := (actionNamed? s).isSome || s == "help"

/-- An argument before the name of a command that is neither an option nor a value. -/
def refusePlain (l : Level) (arg : String) : Except UsageError Level :=
  if l.filesOnly && isCommandName arg then .error .unknownOption else .error .unknownCommand

/-- Help for a command. -/
def parseHelp : List String → UsageError
  | [] => .help
  | [arg] => if isCommandName arg then .help else .unknownCommand
  | _ => .unknownCommand

/-- What the two levels say together. Of values given on both, the later counts. -/
def combine (action : Action) (outer inner : Level) : Arguments where
  action
  config := inner.config.or outer.config
  verbose := outer.has .verbose || inner.has .verbose
  quiet := outer.has .quiet || inner.has .quiet
  dictionaries := inner.files
  output := inner.output
  format := inner.format
  wordList := inner.wordList
  denyWarnings := inner.has .denyWarnings

/-- A command with the level before it, which is looked at last. -/
def finish (action : Action) (outer : Level) (args : List String) :
    Except UsageError Arguments := do
  let inner ← parseCommand { action := some action } args
  let outer ← outer.close
  outer.checkConflicts
  return combine action outer inner

def parseFrom (l : Level) : List String → Except UsageError Arguments
  | [] => do
    let l ← l.close
    throw (if l.isBlank then .missingCommandHelp else .missingCommand)
  | arg :: args =>
    if l.filesOnly || l.awaiting then do parseFrom (← l.take refusePlain arg) args
    else match actionNamed? arg with
      | some action => finish action l args
      | none =>
        if arg = "help" then .error (parseHelp args)
        else do parseFrom (← l.take refusePlain arg) args

end CommandLine

def Arguments.parse (args : List String) : Except UsageError Arguments :=
  CommandLine.parseFrom { action := none } args

end Emend
