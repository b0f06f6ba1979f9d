import Emend.Command.Run

/-! The command line program, over real files. -/
namespace Emend.Main

/-- The same cause as the operating system gives it. -/
def fileError : IO.Error → FileError
  | .noFileOrDirectory .. => .notFound
  | .inappropriateType _ 20 _ => .notDirectory
  | .inappropriateType _ 21 _ => .isDirectory
  | .invalidArgument _ 36 _ => .nameTooLong
  | e => .other (toString e)

def readOpened (handle : IO.FS.Handle) : IO (Except ReadFailure ByteArray) := do
  try return .ok (← handle.readBinToEnd)
  catch e => return .error (.reading (fileError e))

def read (path : Path) : IO (Except ReadFailure ByteArray) := do
  if path.text.contains '\x00' then return .error (.opening .zeroByteInName)
  try readOpened (← IO.FS.Handle.mk path.text .read)
  catch e => return .error (.opening (fileError e))

def write (path : Path) (contents : ByteArray) : IO (Except FileError Unit) := do
  if path.text.contains '\x00' then return .error .zeroByteInName
  try
    IO.FS.writeBinFile path.text contents
    return .ok ()
  catch e => return .error (fileError e)

instance : FileAccess IO where
  read := read
  write := write

def usage : String :=
  "Compile autocorrection dictionaries into firmware lookup tables\n\n"
    ++ "compile [-o FILE] [-f header|json|bincode] [-w WORDS] [--deny-warnings] DICTS...\n"
    ++ "inspect [-w WORDS] DICTS...\n\n"
    ++ "-c, --config FILE   custom configuration file\n"
    ++ "-v, --verbose       show debug output\n"
    ++ "-q, --quiet         only show errors\n"
    ++ "-h, --help          print help\n"
    ++ "-V, --version       print version"

def version : String := "autocorrect-trie 0.1.0"

def usageMessage : UsageError → String
  | .missingCommand => "a command is needed"
  | .unknownCommand => "unknown command"
  | .unknownOption => "unknown option"
  | .invalidValue => "missing or invalid value"
  | .unexpectedValue => "this option takes no value"
  | .missingFiles => "a dictionary file is needed"
  | .conflict => "options exclude one another or are repeated"
  | .help | .missingCommandHelp => usage
  | .version => version

/-- The directory for settings: the one that the environment names, or else the usual one below
the home directory. -/
def configDirectory : IO Path := do
  let home := ((← IO.getEnv "HOME").getD "")
  let named := ((← IO.getEnv "XDG_CONFIG_HOME").getD "")
  return if named.startsWith '/' then ⟨named⟩ else Path.join ⟨home⟩ ".config"

def refuse (e : UsageError) : IO UInt32 := do
  match e with
  | .help | .version =>
    IO.println (usageMessage e)
    return 0
  | .missingCommandHelp =>
    IO.eprintln usage
    return 2
  | _ =>
    IO.eprintln ("error: " ++ usageMessage e ++ "\n\n" ++ usage)
    return 2

def run (args : List String) : IO UInt32 := do
  match Arguments.parse args with
  | .error e => refuse e
  | .ok a => match ← Command.run (Settings.usualPath (← configDirectory)) a with
    | .ok report =>
      IO.print report
      return 0
    | .error e =>
      IO.eprintln ("Error: " ++ e.message)
      return 1

end Emend.Main

def main (args : List String) : IO UInt32 := Emend.Main.run args
