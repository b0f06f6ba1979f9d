/-! File paths with slashes. Empty parts and single dots name no step, so that they are passed over
at the end of a path. -/
namespace Emend

structure Path where
  text : String
  deriving DecidableEq, Repr

namespace Path

/-- The parts between slashes. `current` holds the part that is being read, last first. -/
def splitFrom (current : List Char) : List Char → List (List Char)
  | [] => [current.reverse]
  | c :: cs => if c = '/' then current.reverse :: splitFrom [] cs else splitFrom (c :: current) cs

def split (cs : List Char) : List (List Char) := splitFrom [] cs

/-- Joins parts with slashes. -/
def joinParts : List (List Char) → List Char
  | [] => []
  | [part] => part
  | part :: parts => part ++ '/' :: joinParts parts

/-- The root, or a single dot that begins the path, and what follows it. -/
def splitStart : List Char → List Char × List Char
  | '/' :: body => (['/'], body)
  | ['.'] => (['.'], [])
  | '.' :: '/' :: body => (['.'], '/' :: body)
  | body => ([], body)

/-- A part that names no step. -/
def isEmptyPart (part : List Char) : Bool := part.isEmpty || part == ['.']

/-- The parts of a body, last first, from the last that names a step on. -/
def stepsBack (parts : List (List Char)) : List (List Char) := parts.dropWhile isEmptyPart

/-- The last part, if it is a name. -/
def fileName? (p : Path) : Option (List Char) :=
  match stepsBack (split (splitStart p.text.toList).2).reverse with
  | part :: _ => if part = ['.', '.'] then none else some part
  | [] => none

/-- What follows the last dot of the file name, if something comes before that dot. -/
def extension? (p : Path) : Option String :=
  match p.fileName? with
  | none => none
  | some name =>
    let reversed := name.reverse
    match reversed.dropWhile (· != '.') with
    | [] => none
    | [_] => none
    | _ => some (String.ofList (reversed.takeWhile (· != '.')).reverse)

/-- The path without its last step; nothing before the root or where there is no step. -/
def parent? (p : Path) : Option Path :=
  let (start, body) := splitStart p.text.toList
  match stepsBack (split body).reverse with
  | _ :: before => some ⟨String.ofList (start ++ joinParts (stepsBack before).reverse)⟩
  | [] => if start = ['.'] then some ⟨""⟩ else none

/-- A name inside a directory. -/
def join (dir : Path) (name : String) : Path :=
  match dir.text.toList.getLast? with
  | none => ⟨name⟩
  | some c => if c = '/' then ⟨dir.text ++ name⟩ else ⟨dir.text ++ "/" ++ name⟩

end Path
end Emend
