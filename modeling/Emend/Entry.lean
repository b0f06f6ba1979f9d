import Emend.Edit
import Emend.LinkWidth
import Emend.RadixTree

/-! The entries of a table: a trie laid out as a list in which links are entry numbers. -/
namespace Emend

/-- A leaf ends a typo, a chain asks for its codes one after the other, a branch chooses. -/
inductive Entry
  | leaf (pair : Nat) (edit : Edit)
  | chain (codes : List UInt8) (next : Nat)
  | branch (children : List (UInt8 × Nat))
  deriving DecidableEq, Repr

namespace Entry

/-- The length in bytes under a link width. -/
def byteLength (w : LinkWidth) : Entry → Nat
  | leaf _ edit => edit.byteLength
  | chain codes _ => codes.length + 1
  | branch children => children.length * (1 + w.bytes) + 1

/-- The entries that may follow this one. -/
def links : Entry → List Nat
  | leaf _ _ => []
  | chain _ next => [next]
  | branch children => children.map (·.2)

end Entry

/-- How many entries there are of each kind. -/
structure EntryTally where
  leaves : Nat := 0
  chains : Nat := 0
  branches : Nat := 0
  deriving DecidableEq, Repr

namespace EntryTally

def add (n : EntryTally) : Entry → EntryTally
  | .leaf _ _ => { n with leaves := n.leaves + 1 }
  | .chain _ _ => { n with chains := n.chains + 1 }
  | .branch _ => { n with branches := n.branches + 1 }

def ofEntries (entries : List Entry) : EntryTally := entries.foldl add {}

end EntryTally

namespace RadixTree

mutual
/-- The entries of a tree in preorder. `id` is the number of the first, and `pairs` gives each leaf
its edit. -/
def flatten (pairs : Array Pair) (id : Nat) : RadixTree → Except CompileError (List Entry)
  | leaf k => do
    let edit ← Edit.ofPair (pairs[k]?.getD ⟨"", ""⟩)
    return [.leaf k edit]
  | chain codes next => do
    let below ← next.flatten pairs (id + 1)
    return .chain codes (id + 1) :: below
  | branch children => do
    let (links, below) ← flattenAll pairs (id + 1) children
    return .branch links :: below

/-- The entries of sibling trees one after the other, with the number of each tree's first. -/
def flattenAll (pairs : Array Pair) (id : Nat) :
    List (UInt8 × RadixTree) → Except CompileError (List (UInt8 × Nat) × List Entry)
  | [] => return ([], [])
  | (code, t) :: rest => do
    let first ← t.flatten pairs id
    let (links, below) ← flattenAll pairs (id + first.length) rest
    return ((code, id) :: links, first ++ below)
end

end RadixTree

/-- The entries of a trie. Entry 0 stands for its root. -/
def Trie.entries (t : Trie) : Except CompileError (List Entry) :=
  (RadixTree.ofTrie t).flatten t.pairs 0

end Emend
