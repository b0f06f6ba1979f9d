import Emend.Artifact

/-! The C header that the firmware is built with. -/
namespace Emend.Artifact.Header

/-- No line of the data array has more columns, unless it holds a single byte. -/
def columns : Nat := 100

def indent : String := "    "

/-- A text as wide as `width`, filled up with spaces on the right. -/
def padRight (width : Nat) (s : String) : String :=
  s ++ String.ofList (List.replicate (width - s.length) ' ')

def pairLine (width : Nat) (p : Pair) : String :=
  "//   " ++ padRight width p.typo ++ " -> " ++ p.correction ++ "\n"

/-- The pairs of one dictionary, their corrections in one column. -/
def sectionComment (out : String) (d : Region) : String :=
  let width := ((d.pairs.map Pair.typoLength).max?).getD 0
  let out := out ++ "// From " ++ d.name ++ "\n"
  d.pairs.foldl (fun out p => out ++ pairLine width p) out ++ "// ---------------\n"

def comment (a : Artifact) : String :=
  a.regions.foldl sectionComment
    ("// Generated code.\n\n// Autocorrection dictionary (" ++ toString a.pairCount
      ++ " entries):\n")

def braced (values : List Nat) : String :=
  "\x7b" ++ String.intercalate ", " (values.map toString) ++ "\x7d;\n"

def hexDigit (n : UInt8) : Char :=
  if n < 10 then Char.ofNat ('0'.toNat + n.toNat) else Char.ofNat ('A'.toNat + (n.toNat - 10))

/-- One byte; a comma follows all but the last. -/
def token (b : UInt8) (isLast : Bool) : String :=
  let digits := ("0x".push (hexDigit (b / 16))).push (hexDigit (b % 16))
  if isLast then digits else digits.push ','

/-- Puts each byte on the line if it fits there and on a new line if not. -/
def wrapFrom (out line : String) : List UInt8 → String
  | [] => out ++ line
  | b :: rest =>
    let t := token b rest.isEmpty
    if line.length + 1 + t.length ≤ columns then wrapFrom out (line ++ " " ++ t) rest
    else wrapFrom (out ++ line ++ "\n") (indent ++ t) rest

def wrap : List UInt8 → String
  | [] => ""
  | b :: rest => wrapFrom "" (indent ++ token b rest.isEmpty) rest

def definitions (a : Artifact) : String :=
  let ds := a.regions
  "\n#pragma once\n\n#define N_DICTS " ++ toString ds.length ++ "\n\n"
    ++ "static const uint32_t autocorrect_offsets[N_DICTS] PROGMEM     = "
    ++ braced (ds.map (·.offset.toNat))
    ++ "static const uint16_t autocorrect_min_lengths[N_DICTS] PROGMEM = "
    ++ braced (ds.map (·.shortest.toNat))
    ++ "static const uint16_t autocorrect_max_lengths[N_DICTS] PROGMEM = "
    ++ braced (ds.map (·.longest.toNat))
    ++ "static const uint32_t autocorrect_sizes[N_DICTS] PROGMEM       = "
    ++ braced (ds.map (·.size.toNat))
    ++ "static const uint8_t  autocorrect_node_size[N_DICTS] PROGMEM   = "
    ++ braced (ds.map (·.linkWidth.bytes))
    ++ "\n#define DICTIONARY_SIZE " ++ toString a.data.size ++ "\n"
    ++ "#define TYPO_BUFFER_SIZE " ++ toString a.bufferSize ++ "\n\n"
    ++ "static const uint8_t autocorrect_data[DICTIONARY_SIZE] PROGMEM = \x7b\n"
    ++ wrap a.data.data.toList ++ "\n\x7d;\n\n"

def render (a : Artifact) : String := comment a ++ definitions a

end Emend.Artifact.Header
