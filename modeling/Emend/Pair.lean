/-! A typo and the text that replaces it. -/
namespace Emend

/-- `typo` may start or end with a boundary; `correction` is the intended text. -/
structure Pair where
  typo : String
  correction : String
  deriving DecidableEq, Repr

/-- The typo's length in characters, boundaries included. -/
def Pair.typoLength (p : Pair) : Nat := p.typo.length

end Emend
