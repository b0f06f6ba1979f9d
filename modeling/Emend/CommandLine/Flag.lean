/-! The commands and the options that each of them knows. -/
namespace Emend

inductive Action
  | compile
  | inspect
  deriving DecidableEq, Repr

namespace CommandLine

/-- The options. Only the first four are known to every command. -/
inductive Flag
  | config
  | verbose
  | quiet
  | help
  | version
  | output
  | format
  | wordList
  | denyWarnings
  deriving DecidableEq, Repr

namespace Flag

def takesValue : Flag → Bool
  | config | output | format | wordList => true
  | _ => false

def long : Flag → String
  | config => "config"
  | verbose => "verbose"
  | quiet => "quiet"
  | help => "help"
  | version => "version"
  | output => "output"
  | format => "format"
  | wordList => "word-list"
  | denyWarnings => "deny-warnings"

def short? : Flag → Option Char
  | config => some 'c'
  | verbose => some 'v'
  | quiet => some 'q'
  | help => some 'h'
  | version => some 'V'
  | output => some 'o'
  | format => some 'f'
  | wordList => some 'w'
  | denyWarnings => none

/-- The options that may stand before the name of a command, or after it. -/
def known : Option Action → List Flag
  | none => [config, verbose, quiet, help, version]
  | some .compile => [config, verbose, quiet, help, output, format, wordList, denyWarnings]
  | some .inspect => [config, verbose, quiet, help, wordList]

end Flag
end CommandLine
end Emend
