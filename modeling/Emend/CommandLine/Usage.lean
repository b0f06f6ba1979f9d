/-! The ways in which a command line is refused. -/
namespace Emend

/-- Why a command line is refused, or answered without running a command. -/
inductive UsageError
  | help
  | version
  | missingCommandHelp
  | missingCommand
  | unknownCommand
  | unknownOption
  | invalidValue
  | unexpectedValue
  | missingFiles
  | conflict
  deriving DecidableEq, Repr

end Emend
