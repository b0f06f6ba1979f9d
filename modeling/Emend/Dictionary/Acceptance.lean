import Emend.Dictionary.Line
import Emend.Dictionary.WordList
import Emend.Pair
import Emend.Text.Occurrence

/-! Which lines become pairs, and what there is to warn about. -/
namespace Emend

/-- The longest typo that the typing buffer can hold. -/
def typoLimit : Nat := 127

/-- Shorter typos raise a warning, unless the user asks for another length. -/
def defaultLeast : Nat := 5

/-- A finding that does not keep a dictionary from being used. -/
inductive Warning
  | duplicate (line : Nat) (typo : String)
  | short (line : Nat) (typo : String) (least : Nat)
  | isWord (line : Nat) (typo : String)
  | firesOn (line : Nat) (typo word : String)
  deriving DecidableEq, Repr

namespace Warning

def line : Warning → Nat
  | duplicate n _ | short n _ _ | isWord n _ | firesOn n _ _ => n

def message : Warning → String
  | duplicate n typo => "line " ++ toString n ++ ": ignoring duplicate typo: \"" ++ typo ++ "\""
  | short n typo least =>
    "line " ++ toString n ++ ": it is suggested that typos are at least " ++ toString least
      ++ " characters long to avoid false triggers: \"" ++ typo ++ "\""
  | isWord n typo =>
    "line " ++ toString n ++ ": typo \"" ++ typo ++ "\" is a correctly spelled dictionary word"
  | firesOn n typo word =>
    "line " ++ toString n ++ ": typo \"" ++ typo
      ++ "\" would falsely trigger on correctly spelled word \"" ++ word ++ "\""

end Warning

/-- Why lines are no dictionary. -/
inductive Rejection
  | foreignCharacter (line : Nat) (typo : String)
  | substring (line : Nat) (typo other : String)
  | tooLong (line : Nat) (typo : String)
  deriving DecidableEq, Repr

def Rejection.message : Rejection → String
  | .foreignCharacter n typo =>
    "line " ++ toString n ++ ": typo \"" ++ typo ++ "\" has characters other than "
      ++ String.ofList Alphabet.chars
  | .substring n typo other =>
    "line " ++ toString n ++ ": typos may not be substrings of one another, otherwise the longer "
      ++ "typo would never trigger: \"" ++ typo ++ "\" vs. \"" ++ other ++ "\""
  | .tooLong n typo =>
    "line " ++ toString n ++ ": typo exceeds " ++ toString typoLimit ++ " chars: \"" ++ typo
      ++ "\""

/-- The pairs accepted so far and the warnings raised, both last first. -/
structure Acceptance where
  accepted : List Pair
  warnings : List Warning

namespace Acceptance

def start : Acceptance := ⟨[], []⟩

/-- The typo that came first of those that contain `typo` or are contained in it. -/
def overlap? (v : Acceptance) (typo : String) : Option String :=
  let cs := typo.toList
  (v.accepted.reverse.find? fun p => Text.overlaps p.typo.toList cs).map (·.typo)

def seen (v : Acceptance) (typo : String) : Bool := v.accepted.any (·.typo == typo)

def collisionWarning (line : Nat) (typo : String) : Collision → Warning
  | .isWord => .isWord line typo
  | .firesOn word => .firesOn line typo word

/-- What to warn about in a line that is accepted. -/
def findings (words : WordList) (least : Nat) (l : Line) : List Warning :=
  (if l.typo.length < least then [.short l.number l.typo least] else [])
    ++ (words.collisions l.typo).map (collisionWarning l.number l.typo)

/-- Takes one more line. A typo that was accepted before is passed over. -/
def step (words : WordList) (least : Nat) (v : Acceptance) (l : Line) :
    Except Rejection Acceptance :=
  if v.seen l.typo then
    .ok { v with warnings := .duplicate l.number l.typo :: v.warnings }
  else if !l.typo.toList.all Alphabet.contains then .error (.foreignCharacter l.number l.typo)
  else match v.overlap? l.typo with
    | some other => .error (.substring l.number l.typo other)
    | none =>
      if typoLimit < l.typo.length then .error (.tooLong l.number l.typo)
      else .ok {
        accepted := ⟨l.typo, l.correction⟩ :: v.accepted
        warnings := (findings words least l).reverse ++ v.warnings }

def run (words : WordList) (least : Nat) (v : Acceptance) :
    List Line → Except Rejection Acceptance
  | [] => .ok v
  | l :: ls => match v.step words least l with
    | .ok v => v.run words least ls
    | .error e => .error e

end Acceptance

/-- The pairs and the warnings of lines, in order. Neither the word list nor the least length has
a say in what is accepted. -/
def accept (words : WordList) (least : Nat) (ls : List Line) :
    Except Rejection (List Pair × List Warning) :=
  match Acceptance.start.run words least ls with
  | .ok v => .ok (v.accepted.reverse, v.warnings.reverse)
  | .error e => .error e

end Emend
