import Emend.Command.Sources

/-! The command that reports on tables. It writes nothing. -/
namespace Emend.Command

variable {m : Type → Type} [Monad m] [FileAccess m]

def tableReport (t : Table) : String :=
  let n := t.counts
  t.name ++ "\n  Pairs:        " ++ toString t.pairs.size
    ++ "\n  Entries:      " ++ toString n.leaves ++ " leaf, " ++ toString n.chains ++ " chain, "
    ++ toString n.branches ++ " branch"
    ++ "\n  Size:         " ++ toString t.size ++ " bytes"
    ++ "\n  Link width:   " ++ toString t.layout.width.bytes ++ " bytes"
    ++ "\n  Typo length:  " ++ toString t.shortest ++ "..=" ++ toString t.longest ++ "\n"

def regionReport (d : Region) : String :=
  d.name ++ "\n  Pairs:        " ++ toString d.pairs.length
    ++ "\n  Offset:       " ++ toString d.offset
    ++ "\n  Size:         " ++ toString d.size ++ " bytes"
    ++ "\n  Link width:   " ++ toString d.linkWidth.bytes ++ " bytes"
    ++ "\n  Typo length:  " ++ toString d.shortest ++ "..=" ++ toString d.longest ++ "\n"

def totalReport (size : Nat) : String := "Total: " ++ toString size ++ " bytes\n"

def tablesReport (ts : List Table) : String :=
  String.join (ts.map tableReport) ++ totalReport (ts.foldl (fun n t => n + t.size) 0)

def artifactReport (a : Artifact) : String :=
  String.join (a.regions.map regionReport) ++ totalReport a.data.size

/-- Reads an artifact back. A file that opens but cannot be read is no artifact. -/
def inspectArtifact (path : Path) (decode : ByteArray → Except ArtifactError Artifact)
    (unreadable : ArtifactError) : m (Except CommandError String) := do
  match ← FileAccess.read path with
  | .error (.opening why) => return .error (.unopened path why)
  | .error (.reading _) => return .error (.artifact unreadable)
  | .ok bytes => match decode bytes with
    | .ok a => return .ok (artifactReport a)
    | .error e => return .error (.artifact e)

def inspectSources (paths : List Path) (wordList : Option Path) (settings : Settings) :
    m (Except CommandError String) := do
  match ← gather paths wordList settings false with
  | .error e => return .error e
  | .ok ds => match Table.compileAll ds with
    | .error e => return .error (.compile e)
    | .ok ts => return .ok (tablesReport ts)

/-- The format of a lone file that is an artifact by its name. -/
def loneArtifact? : List Path → Option (Path × Artifact.Format)
  | [path] => (Artifact.Format.ofPath? path).map (path, ·)
  | _ => none

def inspect (paths : List Path) (wordList : Option Path) (settings : Settings) :
    m (Except CommandError String) :=
  match loneArtifact? paths with
  | some (path, .json) => inspectArtifact path Artifact.Json.decode .badJson
  | some (path, .binary) => inspectArtifact path Artifact.Binary.decode .badBinary
  | _ => inspectSources paths wordList settings

end Emend.Command
