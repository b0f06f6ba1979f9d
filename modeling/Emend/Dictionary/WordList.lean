import Emend.Alphabet
import Emend.Text.Alphabetic
import Emend.Text.Blank
import Emend.Text.Lines
import Emend.Text.Lowercase
import Emend.Text.Occurrence

/-! Correctly spelled words, which no typo should fire on. -/
namespace Emend

/-- Words in ascending order, each once. -/
structure WordList where
  words : List String
  deriving DecidableEq, Repr

/-- What a typo would do to a correct word: be that word, or fire while it is typed. -/
inductive Collision
  | isWord
  | firesOn (word : String)
  deriving DecidableEq, Repr

namespace WordList

def empty : WordList := ⟨[]⟩

/-- Drops each word that equals the one before it. -/
def dropRepeats : List String → List String
  | [] => []
  | w :: ws => dropRepeatsFrom w [] ws
where
  dropRepeatsFrom (last : String) (done : List String) : List String → List String
    | [] => (last :: done).reverse
    | w :: ws =>
      if w = last then dropRepeatsFrom last done ws
      else dropRepeatsFrom w (last :: done) ws

/-- A word in lowercase, if it consists of letters. -/
def normalize? (word : String) : Option String :=
  let cs := Text.trim word.toList
  if !cs.isEmpty && cs.all Text.isAlphabetic then some (String.ofList (Text.lower cs)) else none

def ofWords (words : List String) : WordList :=
  ⟨dropRepeats ((words.filterMap normalize?).mergeSort fun a b => decide (a ≤ b))⟩

/-- One word a line; nothing if a line is no text. -/
def ofBytes? (source : List UInt8) : Option WordList :=
  ((Text.splitLines source).mapM Text.decodeLine).map ofWords

/-- Words for when no list is given. Each contains a common typo. -/
def fallback : WordList :=
  ofWords ["information", "available", "international", "language", "loosest", "reference",
    "wealthier", "entertainment", "association", "provides", "technology", "statehood"]

def size (w : WordList) : Nat := w.words.length

def contains (w : WordList) (word : String) : Bool := w.words.contains word

/-- The words with a property, as those a typo fires on. -/
def firing (w : WordList) (p : String → Bool) : List Collision :=
  (w.words.filter p).map .firesOn

/-- The text that a typo is compared by: one boundary is taken off each end. -/
def core (typo : List Char) : List Char :=
  let rest := if typo.head? == some boundary then typo.tail else typo
  if rest.getLast? == some boundary then rest.dropLast else rest

/-- The words that `typo` would wrongly fire on. A boundary at its start or end ties it to the
start or end of a word, and two tie it to the whole word. -/
def collisions (w : WordList) (typo : String) : List Collision :=
  let cs := typo.toList
  let text := core cs
  match cs.head? == some boundary, cs.getLast? == some boundary with
  | true, true => if w.contains (String.ofList text) then [.isWord] else []
  | true, false => w.firing fun word => text.isPrefixOf word.toList
  | false, true => w.firing fun word => text.isSuffixOf word.toList
  | false, false => w.firing fun word => Text.occursIn text word.toList

end WordList
end Emend
