import Emend.Layout

/-! The lookup table of one dictionary. -/
namespace Emend

structure Table where
  name : String
  pairs : Array Pair
  entries : List Entry
  layout : Layout
  data : ByteArray
  shortest : UInt16
  longest : UInt16

namespace Table

/-- A length as it is stored; longer ones count as the largest that fits. -/
def storedLength (n : Nat) : UInt16 := (min n 0xFFFF).toUInt16

def shortestTypo (ps : List Pair) : Nat := ((ps.map Pair.typoLength).min?).getD 0

def longestTypo (ps : List Pair) : Nat := ((ps.map Pair.typoLength).max?).getD 0

def compile (name : String) (ps : List Pair) : Except CompileError Table := do
  if ps.isEmpty then throw (.noPairs name)
  let trie ← Trie.ofPairs ps
  let entries ← trie.entries
  let layout ← Layout.narrowest name entries
  let data ← layout.encode entries
  return {
    name
    pairs := trie.pairs
    entries
    layout
    data
    shortest := storedLength (shortestTypo ps)
    longest := storedLength (longestTypo ps) }

def size (t : Table) : Nat := t.data.size

def counts (t : Table) : EntryTally := .ofEntries t.entries

/-- The first byte of an entry. -/
def start? (t : Table) (id : Nat) : Option UInt32 := t.layout.offsets[id]?

end Table
end Emend
