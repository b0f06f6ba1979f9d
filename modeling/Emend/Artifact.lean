import Emend.Table

/-! Several tables in one array of bytes, with a record of where each lies and how to read it. -/
namespace Emend

/-- A named list of pairs that is ready to be compiled. -/
structure Dictionary where
  name : String
  pairs : List Pair
  deriving DecidableEq, Repr

/-- Where the region of one dictionary lies, and how to read it. -/
structure Region where
  name : String
  offset : UInt32
  shortest : UInt16
  longest : UInt16
  size : UInt32
  linkWidth : LinkWidth
  pairs : List Pair
  deriving DecidableEq, Repr

/-- Regions back to back. -/
structure Artifact where
  regions : List Region
  data : ByteArray

namespace Artifact

/-- Artifacts with the same regions and the same bytes are equal. -/
instance : DecidableEq Artifact := fun a b =>
  match decEq a.regions b.regions, ByteArray.decEq a.data b.data with
  | .isTrue h, .isTrue h' => .isTrue (by cases a; cases b; cases h; cases h'; rfl)
  | .isFalse h, _ => .isFalse fun e => h (e ▸ rfl)
  | _, .isFalse h => .isFalse fun e => h (e ▸ rfl)

/-- The most dictionaries that can be told apart at run time. -/
def capacity : Nat := 8

def pairCount (a : Artifact) : Nat := (a.regions.flatMap (·.pairs)).length

/-- The longest typo of all, for which the typing buffer must have room. -/
def bufferSize (a : Artifact) : UInt16 :=
  a.regions.foldl (fun n d => max n d.longest) 0

/-- The bytes of one dictionary, if they are all there. -/
def regionBytes? (a : Artifact) (i : Nat) : Option ByteArray :=
  match a.regions[i]? with
  | none => none
  | some d =>
    let last := d.offset.toNat + d.size.toNat
    if last ≤ a.data.size then some (a.data.extract d.offset.toNat last) else none

def checkCapacity (count : Nat) : Except CompileError Unit :=
  if count = 0 then .error .noneGiven
  else if capacity < count then .error (.tooManyGiven count)
  else .ok ()

/-- Puts the region of a table behind the others. -/
def append (a : Artifact) (t : Table) : Artifact where
  regions := a.regions ++ [{
    name := t.name
    offset := a.data.size.toUInt32
    shortest := t.shortest
    longest := t.longest
    size := t.layout.size
    linkWidth := t.layout.width
    pairs := t.pairs.toList }]
  data := a.data ++ t.data

def ofTables (tables : List Table) : Except CompileError Artifact := do
  checkCapacity tables.length
  return tables.foldl append ⟨[], ByteArray.empty⟩

end Artifact

/-- One table for each dictionary; the first failure counts. -/
def Table.compileAll (ds : List Dictionary) : Except CompileError (List Table) := do
  Artifact.checkCapacity ds.length
  ds.mapM fun d => Table.compile d.name d.pairs

def Artifact.compile (ds : List Dictionary) : Except CompileError Artifact := do
  let tables ← Table.compileAll ds
  ofTables tables

end Emend
