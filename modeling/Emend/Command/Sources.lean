import Emend.Command.Error

/-! Dictionaries and word lists from files. -/
namespace Emend.Command

variable {m : Type → Type} [Monad m] [FileAccess m]

/-- A word list, one word a line. -/
def loadWords (path : Path) : m (Except SourceError WordList) := do
  match ← FileAccess.read path with
  | .error e => return .error (.unopened path.text (.unreadable e.why))
  | .ok bytes => return match WordList.ofBytes? bytes.data.toList with
    | some words => .ok words
    | none => .error (.unopened path.text .notUtf8)

/-- A dictionary, named by its path. -/
def loadDictionary (words : WordList) (least : Nat) (path : Path) :
    m (Except SourceError VettedDictionary) := do
  match ← FileAccess.read path with
  | .error (.opening why) => return .error (.unopened path.text (.unreadable why))
  | .error (.reading why) => return .error (.unreadable (.unreadable why))
  | .ok bytes => return VettedDictionary.ofBytes path.text bytes.data.toList words least

/-- Dictionaries in order; the first failure counts. -/
def loadAll (words : WordList) (least : Nat) :
    List Path → m (Except CommandError (List VettedDictionary))
  | [] => return .ok []
  | path :: paths => do
    match ← loadDictionary words least path with
    | .error e => return .error (.dictionary path e)
    | .ok d => match ← loadAll words least paths with
      | .error e => return .error e
      | .ok ds => return .ok (d :: ds)

/-- The given word list, or else that of the settings, or else the words that need no file. -/
def chooseWords (given : Option Path) (settings : Settings) : m (Except CommandError WordList) := do
  match given.or settings.wordList with
  | none => return .ok .fallback
  | some path => match ← loadWords path with
    | .ok words => return .ok words
    | .error e => return .error (.wordList path e)

def checkFiles (count : Nat) : Except CommandError Unit :=
  if count = 0 then .error .noneGiven
  else if Artifact.capacity < count then .error (.tooManyGiven count)
  else .ok ()

/-- Refuses dictionaries with warnings if `deny` says so. -/
def acceptAll (deny : Bool) (ds : List VettedDictionary) : Except CommandError (List Dictionary) :=
  let count := (ds.flatMap (·.warnings)).length
  if deny && 0 < count then .error (.warningsDenied count) else .ok (ds.map (·.dictionary))

def gather (paths : List Path) (wordList : Option Path) (settings : Settings) (deny : Bool) :
    m (Except CommandError (List Dictionary)) := do
  match checkFiles paths.length with
  | .error e => return .error e
  | .ok () => match ← chooseWords wordList settings with
    | .error e => return .error e
    | .ok words =>
      let least := settings.minTypoLength.getD defaultLeast
      match ← loadAll words least paths with
      | .error e => return .error e
      | .ok ds => return acceptAll deny ds

end Emend.Command
