import Emend.Artifact.Format
import Emend.CommandLine.Flag
import Emend.CommandLine.Usage

/-! The arguments before the name of a command, or those after it. A value is looked at when the
next argument shows that it is complete. -/
namespace Emend.CommandLine

/-- What has been read and not yet looked at. -/
inductive Pending
  | nothing
  | option (flag : Flag) (value : Option String)
  | files (names : List String)

/-- The arguments of one level: those before the name of a command, or those after it. -/
structure Level where
  action : Option Action
  config : Option Path := none
  switches : List Flag := []
  files : List Path := []
  output : Option Path := none
  format : Option Artifact.Format := none
  wordList : Option Path := none
  pending : Pending := .nothing
  /-- An option still waits for its value. -/
  awaiting : Bool := false
  /-- Only files may follow. -/
  filesOnly : Bool := false

namespace Level

/-- No path is empty. -/
def toPath? (s : String) : Except UsageError Path :=
  if s = "" then .error .invalidValue else .ok ⟨s⟩

/-- A value that has not been given before. -/
def once {α : Type} (old : Option α) (new : Except UsageError α) : Except UsageError (Option α) :=
  if old.isSome then .error .conflict else new.map some

def setValue (l : Level) (flag : Flag) (value : String) : Except UsageError Level :=
  match flag with
  | .config => do return { l with config := ← once l.config (toPath? value) }
  | .output => do return { l with output := ← once l.output (toPath? value) }
  | .wordList => do return { l with wordList := ← once l.wordList (toPath? value) }
  | .format => do
    let new := match Artifact.Format.ofName? value with
      | some f => .ok f
      | none => .error .invalidValue
    return { l with format := ← once l.format new }
  | _ => .ok l

/-- Looks at what is pending. -/
def settle (l : Level) : Except UsageError Level :=
  match l.pending with
  | .nothing => .ok l
  | .option _ none => .error .invalidValue
  | .option flag (some value) => { l with pending := .nothing }.setValue flag value
  | .files names => do
    let paths ← names.mapM toPath?
    return { l with pending := .nothing, files := l.files ++ paths }

/-- An option without a value. -/
def switch (l : Level) (flag : Flag) : Except UsageError Level := do
  let l ← l.settle
  match flag with
  | .help => throw .help
  | .version => throw .version
  | _ =>
    if l.switches.contains flag then throw .conflict
    return { l with switches := flag :: l.switches, awaiting := false }

/-- An option with a value in the same argument, or in the next. -/
def option (l : Level) (flag : Flag) (value : Option String) : Except UsageError Level := do
  let l ← l.settle
  match value with
  | some value => return { ← l.setValue flag value with awaiting := false }
  | none => return { l with pending := .option flag none, awaiting := true }

def findLong (l : Level) (name : String) : Option Flag :=
  (Flag.known l.action).find? fun f => f.long == name

def findShort (l : Level) (c : Char) : Option Flag :=
  (Flag.known l.action).find? fun f => f.short? == some c

/-- An argument that begins with two dashes, which are taken off; its value follows an equals
sign. -/
def long (l : Level) (body : List Char) : Except UsageError Level :=
  let value := match body.dropWhile (· != '=') with
    | _ :: value => some (String.ofList value)
    | [] => none
  match l.findLong (String.ofList (body.takeWhile (· != '='))) with
  | none => .error .unknownOption
  | some flag =>
    if flag.takesValue then l.option flag value
    else if value.isSome then .error .unexpectedValue
    else l.switch flag

/-- An argument that begins with one dash, which is taken off: switches, and perhaps an option at
the end with its value. -/
def shorts (l : Level) : List Char → Except UsageError Level
  | [] => .ok l
  | c :: rest => match l.findShort c with
    | none => .error .unknownOption
    | some flag =>
      if flag.takesValue then
        l.option flag (match rest with
          | [] => none
          | '=' :: value => some (String.ofList value)
          | value => some (String.ofList value))
      else do
        let l ← l.switch flag
        l.shorts rest

/-- A file of the command. -/
def file (l : Level) (name : String) : Except UsageError Level :=
  match l.pending with
  | .files names => .ok { l with pending := .files (names ++ [name]), awaiting := false }
  | _ => do
    let l ← l.settle
    return { l with pending := .files [name], awaiting := false }

/-- The value that an option waits for, if it waits for one. -/
def value? (l : Level) (value : String) : Option Level :=
  match l.awaiting, l.pending with
  | true, .option flag none =>
    some { l with pending := .option flag (some value), awaiting := false }
  | _, _ => none

/-- One argument that is not the name of a command. `plain` says what to do with one that is
neither an option nor a value. -/
def take (l : Level) (plain : Level → String → Except UsageError Level) (arg : String) :
    Except UsageError Level :=
  if l.filesOnly then plain l arg
  else match arg.toList with
    | ['-', '-'] => .ok { l with filesOnly := true }
    | '-' :: '-' :: body => l.long body
    | '-' :: c :: rest => l.shorts (c :: rest)
    | _ => match l.value? arg with
      | some l => .ok l
      | none => plain l arg

/-- Nothing more comes. -/
def close (l : Level) : Except UsageError Level := l.settle

def has (l : Level) (flag : Flag) : Bool := l.switches.contains flag

/-- The output cannot be both more and less than usual. -/
def checkConflicts (l : Level) : Except UsageError Unit :=
  if l.has .verbose && l.has .quiet then .error .conflict else .ok ()

def isBlank (l : Level) : Bool := l.config.isNone && l.switches.isEmpty

end Level

end Emend.CommandLine
