import Emend.Text.Quoted

/-! The reasons for which no table is made. -/
namespace Emend

inductive CompileError
  | tooManyBackspaces (typo correction : String) (backspaces : Int)
  | nonAsciiSuffix (typo correction : String)
  | tableTooLarge (dictionary : String) (size : Nat)
  | linkTooFar (offset width : Nat)
  | unexpectedSize (expected actual : Nat)
  | foreignCharacter (typo : String) (char : Char)
  | overlap (typo : String)
  | emptyTypo (correction : String)
  | noPairs (dictionary : String)
  | noneGiven
  | tooManyGiven (count : Nat)
  deriving DecidableEq, Repr

def CompileError.message : CompileError → String
  | .tooManyBackspaces typo correction backspaces =>
    "cannot encode \"" ++ typo ++ "\" -> \"" ++ correction ++ "\": needs " ++ toString backspaces
      ++ " backspaces, which is outside 0..=63"
  | .nonAsciiSuffix typo correction =>
    "correction \"" ++ correction ++ "\" for typo \"" ++ typo ++ "\" must be ASCII"
  | .tableTooLarge dictionary size =>
    "dictionary \"" ++ dictionary ++ "\" is too large: " ++ toString size
      ++ " bytes exceeds the 16MB node link limit; "
      ++ "try reducing the dictionary to fewer entries"
  | .linkTooFar offset width =>
    "node link offset " ++ toString offset ++ " does not fit in " ++ toString width ++ " bytes"
  | .unexpectedSize expected actual =>
    "serialized table is " ++ toString actual ++ " bytes but layout computed " ++ toString expected
  | .foreignCharacter typo char =>
    "typo \"" ++ typo ++ "\" contains unsupported character " ++ Text.quoteChar char
  | .overlap typo => "typo \"" ++ typo ++ "\" overlaps another typo in the trie"
  | .emptyTypo correction => "empty typo for correction \"" ++ correction ++ "\""
  | .noPairs dictionary =>
    "dictionary \"" ++ dictionary ++ "\" has no autocorrection entries"
  | .noneGiven => "at least one dictionary must be provided"
  | .tooManyGiven count =>
    toString count ++ " dictionaries given, but at most 8 can be indexed"

end Emend
