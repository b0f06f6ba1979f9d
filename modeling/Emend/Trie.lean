import Emend.Alphabet
import Emend.CompileError
import Emend.Pair

/-! Typos stored last character first, in numbered nodes. A typo that ends another one would take
its place as the keys come in, so no stored typo is a suffix of another. -/
namespace Emend

/-- `edges` ascend by code; `pair` is the number of the pair whose typo is complete here. -/
structure Node where
  edges : List (UInt8 × Nat) := []
  pair : Option Nat := none
  deriving DecidableEq, Repr

namespace Node

def isComplete (n : Node) : Bool := n.pair.isSome

def child? (n : Node) (code : UInt8) : Option Nat := n.edges.lookup code

/-- Puts an edge in its place by code. -/
def insertEdge (code : UInt8) (target : Nat) : List (UInt8 × Nat) → List (UInt8 × Nat)
  | [] => [(code, target)]
  | (c, j) :: rest =>
    if code < c then (code, target) :: (c, j) :: rest
    else (c, j) :: insertEdge code target rest

def addEdge (code : UInt8) (target : Nat) (n : Node) : Node :=
  { n with edges := insertEdge code target n.edges }

end Node

/-- Node 0 is the root; nodes and pairs are numbered in the order in which they came. -/
structure Trie where
  nodes : Array Node
  pairs : Array Pair
  deriving Repr

namespace Trie

def empty : Trie := ⟨#[{}], #[]⟩

def node (t : Trie) (i : Nat) : Node := t.nodes[i]?.getD {}

def root (t : Trie) : Node := t.node 0

def size (t : Trie) : Nat := t.nodes.size

def isEmpty (t : Trie) : Bool := t.pairs.isEmpty

/-- Adds a node below node `i`. -/
def addChild (t : Trie) (i : Nat) (code : UInt8) : Trie :=
  let fresh := t.nodes.size
  { t with nodes := (t.nodes.modify i (·.addEdge code fresh)).push {} }

/-- Follows `codes` down from node `i`, adding the nodes that are missing. Ends without a node if
a typo is complete on the way. -/
def descend (t : Trie) (i : Nat) : List UInt8 → Trie × Option Nat
  | [] => (t, some i)
  | code :: codes =>
    if (t.node i).isComplete then (t, none)
    else match (t.node i).child? code with
      | some j => descend t j codes
      | none =>
        let fresh := t.nodes.size
        descend (t.addChild i code) fresh codes

/-- Completes `p` at node `i`. -/
def complete (t : Trie) (i : Nat) (p : Pair) : Trie :=
  let number := t.pairs.size
  { nodes := t.nodes.modify i fun n => { n with pair := some number }
    pairs := t.pairs.push p }

/-- Puts the code of a character in front, unless one without a code came before it. -/
def pushCode (codes : Except Char (List UInt8)) (c : Char) : Except Char (List UInt8) :=
  match Alphabet.code? c, codes with
  | some code, .ok codes => .ok (code :: codes)
  | some _, .error c' => .error c'
  | none, _ => .error c

/-- The codes of a typo, last character first, or the last character that has none. -/
def codesOf (typo : String) : Except Char (List UInt8) := typo.toList.foldl pushCode (.ok [])

/-- Stores a pair. The trie comes back beside the refusal, as the attempt left it. -/
def insert (t : Trie) (p : Pair) : Trie × Option CompileError :=
  if p.typo.isEmpty then (t, some (.emptyTypo p.correction))
  else match codesOf p.typo with
    | .error c => (t, some (.foreignCharacter p.typo c))
    | .ok codes => match t.descend 0 codes with
      | (t, none) => (t, some (.overlap p.typo))
      | (t, some i) =>
        if (t.node i).isComplete || !(t.node i).edges.isEmpty then
          (t, some (.overlap p.typo))
        else (t.complete i p, none)

/-- Stores pairs in order and stops at the first refusal. -/
def insertAll (t : Trie) : List Pair → Except CompileError Trie
  | [] => .ok t
  | p :: ps => match t.insert p with
    | (_, some e) => .error e
    | (t, none) => t.insertAll ps

def ofPairs (ps : List Pair) : Except CompileError Trie := empty.insertAll ps

def pairAt? (t : Trie) (i : Nat) : Option Pair :=
  (t.node i).pair.bind fun k => t.pairs[k]?

/-- The node that `codes` lead to from node `i`. -/
def followFrom (t : Trie) (i : Nat) : List UInt8 → Option Nat
  | [] => some i
  | code :: codes => match (t.node i).child? code with
    | some j => t.followFrom j codes
    | none => none

def follow? (t : Trie) (codes : List UInt8) : Option Nat := t.followFrom 0 codes

/-- The pair with exactly this typo. -/
def get? (t : Trie) (typo : String) : Option Pair :=
  match codesOf typo with
  | .error _ => none
  | .ok codes => (t.follow? codes).bind t.pairAt?

/-- `depth` characters lead to node `i`; the count grows until a typo is complete. -/
def suffixFrom (t : Trie) (i depth : Nat) : List Char → Option Nat
  | [] => none
  | c :: cs => match (Alphabet.code? c).bind (t.node i).child? with
    | some j => if (t.node j).isComplete then some (depth + 1) else t.suffixFrom j (depth + 1) cs
    | none => none

/-- The length of the stored typo that `text` ends in. -/
def suffixLength? (t : Trie) (text : String) : Option Nat :=
  t.suffixFrom 0 0 text.toList.reverse

end Trie
end Emend
