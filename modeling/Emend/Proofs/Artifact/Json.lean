import Emend.Artifact.Json
import Emend.Proofs.Json.Reading
import Emend.Proofs.Json.Values

/-! An artifact that is written as JSON is read back as it was. -/
namespace Emend.Artifact.Json
open Emend.Json

variable {j : Emend.Json}

/-! Values. -/

theorem fields?_ofPair (p : Pair) : (ofPair p).fields? ["typo", "correction"] =
    some [some (.text p.typo), some (.text p.correction)] :=
  fields?_record (show ["typo", "correction"].Nodup by decide)

theorem toPair?_ofPair (p : Pair) : toPair? (ofPair p) = some p := by
  rw [toPair?, fields?_ofPair]
  simp [text?_text]

theorem toWidth?_nat (w : LinkWidth) : toWidth? (.nat w.bytes) = some w := by
  cases w <;> rfl

theorem toByte?_nat (b : UInt8) : toByte? (.nat b.toNat) = some b := by
  have hb : b.toNat ≤ 0xFF := Nat.le_of_lt_succ b.toNat_lt
  rw [toByte?, natUpTo?_nat hb, Option.map_some, Nat.toUInt8, UInt8.ofNat_toNat]

theorem fields?_ofRegion (d : Region) : (ofRegion d).fields?
    ["name", "offset", "min_length", "max_length", "size", "link_width", "pairs"] =
    some [some (.text d.name), some (.nat d.offset.toNat), some (.nat d.shortest.toNat),
      some (.nat d.longest.toNat), some (.nat d.size.toNat), some (.nat d.linkWidth.bytes),
      some (.array (d.pairs.map ofPair))] :=
  fields?_record (show ["name", "offset", "min_length", "max_length", "size", "link_width",
    "pairs"].Nodup by decide)

theorem natUpTo?_uint16 (n : UInt16) : (Emend.Json.nat n.toNat).natUpTo? 0xFFFF = some n.toNat :=
  natUpTo?_nat (Nat.le_of_lt_succ n.toNat_lt)

theorem natUpTo?_uint32 (n : UInt32) :
    (Emend.Json.nat n.toNat).natUpTo? 0xFFFFFFFF = some n.toNat :=
  natUpTo?_nat (Nat.le_of_lt_succ n.toNat_lt)

theorem toRegion?_ofRegion (d : Region) : toRegion? (ofRegion d) = some d := by
  have hpairs : (d.pairs.map ofPair).mapM toPair? = some d.pairs :=
    mapM_map_eq_some fun p _ => toPair?_ofPair p
  rw [toRegion?, fields?_ofRegion]
  simp [text?_text, natUpTo?_uint16, natUpTo?_uint32, toWidth?_nat, items?, hpairs]

theorem fields?_ofArtifact (a : Artifact) : (ofArtifact a).fields? ["dictionaries", "data"] =
    some [some (.array (a.regions.map ofRegion)),
      some (.array (a.data.data.toList.map fun b => .nat b.toNat))] :=
  fields?_record (show ["dictionaries", "data"].Nodup by decide)

theorem toArtifact?_ofArtifact (a : Artifact) : toArtifact? (ofArtifact a) = some a := by
  have hregions : (a.regions.map ofRegion).mapM toRegion? = some a.regions :=
    mapM_map_eq_some fun d _ => toRegion?_ofRegion d
  have hbytes : (a.data.data.toList.map fun b => Emend.Json.nat b.toNat).mapM toByte? =
      some a.data.data.toList := mapM_map_eq_some fun b _ => toByte?_nat b
  have hdata : a.data.data.toList.toByteArray = a.data :=
    ByteArray.ext (by rw [List.data_toByteArray, Array.toArray_toList])
  rw [toArtifact?, fields?_ofArtifact]
  simp [items?, hregions, hbytes, hdata]

/-! Numbers. -/

theorem lexical_nat (n : Nat) : Lexical (.nat n) := .number (isNumber_digits n)

theorem lexical_text (s : String) : Lexical (.text s) := .string s.toUTF8

theorem lexical_record {fields : List (String × Emend.Json)} (h : ∀ f ∈ fields, Lexical f.2) :
    Lexical (.record fields) := by
  refine .object fun f hf => ?_
  obtain ⟨g, hg, rfl⟩ := List.mem_map.mp hf
  exact h g hg

theorem lexical_map {α : Type} {make : α → Emend.Json} {xs : List α}
    (h : ∀ x, Lexical (make x)) : Lexical (.array (xs.map make)) := by
  refine .array fun i hi => ?_
  obtain ⟨x, -, rfl⟩ := List.mem_map.mp hi
  exact h x

theorem lexical_ofPair (p : Pair) : Lexical (ofPair p) := by
  refine lexical_record ?_
  simp [lexical_text]

theorem lexical_ofRegion (d : Region) : Lexical (ofRegion d) := by
  refine lexical_record ?_
  simp [lexical_text, lexical_nat, lexical_map lexical_ofPair]

theorem lexical_ofArtifact (a : Artifact) : Lexical (ofArtifact a) := by
  refine lexical_record ?_
  simp [lexical_map lexical_ofRegion, lexical_map fun b : UInt8 => lexical_nat b.toNat]

/-! Texts. -/

theorem parse_encode (a : Artifact) :
    (parse (encode a).data.toList).bind toArtifact? = some a := by
  rw [encode, parse_print (lexical_ofArtifact a), Option.bind_some, toArtifact?_ofArtifact]

theorem decode_encode_eq_verify (a : Artifact) : decode (encode a) = a.verify := by
  rw [decode, parse_encode]

/-- What is written is read back, unless the check refuses it for a reason, which is then told. -/
theorem decode_encode_json (a : Artifact) :
    (a.check = .ok () → decode (encode a) = .ok a) ∧
    ∀ why, a.check = .error why → decode (encode a) = .error (.inconsistent why) := by
  rw [decode_encode_eq_verify, verify]
  constructor
  · intro h
    rw [h]
  · intro why h
    rw [h]

/-- A name and a pair with characters that are escaped, and bytes that are no text. -/
def sample (offset : UInt32) : Artifact where
  regions := [⟨"\"\\\n\x07é", offset, 3, 3, 2, .two, [⟨"hte", "t\the\x7f"⟩]⟩]
  data := ⟨#[0, 255]⟩

theorem decode_encode_json_sample :
    decode (encode (sample 0)) = .ok (sample 0) ∧
    decode (encode (sample 1)) = .error (.inconsistent (.misplaced "\"\\\n\x07é" 1 0)) :=
  ⟨(decode_encode_json (sample 0)).1 rfl, (decode_encode_json (sample 1)).2 _ rfl⟩

end Emend.Artifact.Json
