import Emend.Artifact

/-! Whether the regions of an artifact follow one another and cover its bytes. -/
namespace Emend

inductive Inconsistency
  | count (dictionaries : Nat)
  | misplaced (name : String) (offset : UInt32) (expected : Nat)
  | uncovered (covered size : Nat)
  deriving DecidableEq, Repr

def Inconsistency.message : Inconsistency → String
  | .count n => toString n ++ " dictionaries, expected 1..=8"
  | .misplaced name offset expected =>
    "dictionary \"" ++ name ++ "\" starts at " ++ toString offset ++ ", expected "
      ++ toString expected
  | .uncovered covered size =>
    "regions cover " ++ toString covered ++ " bytes but data has " ++ toString size

namespace Artifact

/-- Where the next region must begin, `expected` being where the first one must. -/
def checkOffsets (expected : Nat) : List Region → Except Inconsistency Nat
  | [] => .ok expected
  | d :: rest =>
    if d.offset.toNat = expected then checkOffsets (expected + d.size.toNat) rest
    else .error (.misplaced d.name d.offset expected)

def check (a : Artifact) : Except Inconsistency Unit := do
  let count := a.regions.length
  if count = 0 || capacity < count then throw (.count count)
  let covered ← checkOffsets 0 a.regions
  if covered ≠ a.data.size then throw (.uncovered covered a.data.size)

end Artifact

/-- Why bytes are not an artifact. -/
inductive ArtifactError
  | badBinary
  | badJson
  | inconsistent (why : Inconsistency)
  deriving DecidableEq, Repr

def ArtifactError.message : ArtifactError → String
  | .badBinary => "Bincode error"
  | .badJson => "JSON error"
  | .inconsistent why => "inconsistent autocorrect data: " ++ why.message

/-- Keeps an artifact that is consistent. -/
def Artifact.verify (a : Artifact) : Except ArtifactError Artifact :=
  match a.check with
  | .ok () => .ok a
  | .error why => .error (.inconsistent why)

end Emend
