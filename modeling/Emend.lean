import Emend.FileTree
import Emend.Main
import Emend.Proofs.Artifact.Binary
import Emend.Proofs.Artifact.Header.Comment
import Emend.Proofs.Artifact.Header.Definitions
import Emend.Proofs.Artifact.Header.Rows
import Emend.Proofs.Artifact.Join
import Emend.Proofs.Artifact.Json
import Emend.Proofs.Artifact.Lengths
import Emend.Proofs.Artifact.Partition
import Emend.Proofs.Command.Compile
import Emend.Proofs.Command.Inspect
import Emend.Proofs.Command.Reading
import Emend.Proofs.Command.Run
import Emend.Proofs.Dictionary.Boundaries
import Emend.Proofs.Dictionary.Collision
import Emend.Proofs.Dictionary.Findings
import Emend.Proofs.Dictionary.Grammar
import Emend.Proofs.Dictionary.Indifference
import Emend.Proofs.Dictionary.KeptWords
import Emend.Proofs.Dictionary.Lines
import Emend.Proofs.Dictionary.Loading
import Emend.Proofs.Dictionary.Renumbering
import Emend.Proofs.Dictionary.Typing
import Emend.Proofs.Dictionary.Validation
import Emend.Proofs.Dictionary.Warnings
import Emend.Proofs.Dictionary.Writing
import Emend.Proofs.Edit.Leaf
import Emend.Proofs.Edit.Screen
import Emend.Proofs.Edit.Shortest
import Emend.Proofs.Entry.Preorder
import Emend.Proofs.FileTree.Write
import Emend.Proofs.Layout.Encoding
import Emend.Proofs.Table.Acceptance
import Emend.Proofs.Table.Decoding
import Emend.Proofs.Table.Reduce
import Emend.Proofs.Table.Tiling
import Emend.Proofs.Trie.Lookup
import Emend.Proofs.Trie.Suffixes
import Emend.Proofs.Text.Encoding
import Emend.Proofs.Text.Lines
import Emend.Proofs.Text.Separator
import Emend.Proofs.Text.Trim
