import Emend.Trie

/-! A trie without node numbers, its runs of single edges joined into one step each. -/
namespace Emend

/-- The next tree of a chain is never a chain itself in a tree made from a trie. -/
inductive RadixTree where
  | leaf (pair : Nat)
  | chain (codes : List UInt8) (next : RadixTree)
  | branch (children : List (UInt8 × RadixTree))
  deriving Inhabited

namespace RadixTree

/-- The tree above a single edge. -/
def prepend (code : UInt8) : RadixTree → RadixTree
  | chain codes next => chain (code :: codes) next
  | t => chain [code] t

/-- The tree of one node, from the trees of the nodes that its edges lead to. -/
def ofNode (treeOf : Nat → RadixTree) (n : Node) : RadixTree :=
  match n.pair, n.edges with
  | some pair, _ => leaf pair
  | none, [(code, j)] => (treeOf j).prepend code
  | none, edges => branch (edges.map fun (code, j) => (code, treeOf j))

/-- The trees of the nodes, last node first. An edge leads to a later node, so each tree is made
from trees that are already there. -/
def ofNodes (nodes : Array Node) : Array RadixTree :=
  nodes.foldr (fun n trees =>
    trees.push (ofNode (fun j => trees[nodes.size - 1 - j]?.getD (branch [])) n)) #[]

def ofTrie (t : Trie) : RadixTree := (ofNodes t.nodes)[t.nodes.size - 1]?.getD (branch [])

end RadixTree
end Emend
