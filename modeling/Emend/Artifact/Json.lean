import Emend.Artifact.Consistency
import Emend.Json.Parser
import Emend.Json.Printer

/-! Artifacts as JSON. -/
namespace Emend.Artifact.Json

/-! ## Writing -/

def ofPair (p : Pair) : Json :=
  .record [("typo", .text p.typo), ("correction", .text p.correction)]

def ofRegion (d : Region) : Json :=
  .record [
    ("name", .text d.name),
    ("offset", .nat d.offset.toNat),
    ("min_length", .nat d.shortest.toNat),
    ("max_length", .nat d.longest.toNat),
    ("size", .nat d.size.toNat),
    ("link_width", .nat d.linkWidth.bytes),
    ("pairs", .array (d.pairs.map ofPair))]

def ofArtifact (a : Artifact) : Json :=
  .record [
    ("dictionaries", .array (a.regions.map ofRegion)),
    ("data", .array (a.data.data.toList.map fun b => .nat b.toNat))]

def encode (a : Artifact) : ByteArray := (ofArtifact a).print.push 0x0A

/-! ## Reading -/

def toPair? (j : Json) : Option Pair :=
  match j.fields? ["typo", "correction"] with
  | some [some typo, some correction] => do
    return ⟨← typo.text?, ← correction.text?⟩
  | _ => none

def toWidth? (j : Json) : Option LinkWidth := do
  let n ← j.natUpTo? 0xFF
  LinkWidth.ofByte? n.toUInt8

def toRegion? (j : Json) : Option Region :=
  match j.fields? ["name", "offset", "min_length", "max_length", "size", "link_width", "pairs"] with
  | some [some name, some offset, some shortest, some longest, some size, some linkWidth,
      some pairs] => do
    return {
      name := ← name.text?
      offset := (← offset.natUpTo? 0xFFFFFFFF).toUInt32
      shortest := (← shortest.natUpTo? 0xFFFF).toUInt16
      longest := (← longest.natUpTo? 0xFFFF).toUInt16
      size := (← size.natUpTo? 0xFFFFFFFF).toUInt32
      linkWidth := ← toWidth? linkWidth
      pairs := ← (← pairs.items?).mapM toPair? }
  | _ => none

def toByte? (j : Json) : Option UInt8 := (j.natUpTo? 0xFF).map Nat.toUInt8

def toArtifact? (j : Json) : Option Artifact :=
  match j.fields? ["dictionaries", "data"] with
  | some [some regions, some data] => do
    return {
      regions := ← (← regions.items?).mapM toRegion?
      data := (← (← data.items?).mapM toByte?).toByteArray }
  | _ => none

def decode (bytes : ByteArray) : Except ArtifactError Artifact :=
  match (Emend.Json.parse bytes.data.toList).bind toArtifact? with
  | some a => a.verify
  | none => .error .badJson

end Emend.Artifact.Json
