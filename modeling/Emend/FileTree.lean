import Emend.FileAccess

/-! Files in memory, as commands see them. -/
namespace Emend

inductive FileTree where
  | file (contents : ByteArray)
  | directory (entries : List (String × FileTree))
  deriving Inhabited

namespace FileTree

/-- What a directory holds under a name. -/
def child? (name : String) : FileTree → Option FileTree
  | file _ => none
  | directory entries => entries.lookup name

def isDirectory : FileTree → Bool
  | directory _ => true
  | file _ => false

/-- What lies at the end of a chain of names. -/
def find? (t : FileTree) : List String → Option FileTree
  | [] => some t
  | name :: names => match t.child? name with
    | some c => c.find? names
    | none => none

/-- Replaces the entry of a name, or adds one behind the others. -/
def putEntry (name : String) (t : FileTree) : List (String × FileTree) → List (String × FileTree)
  | [] => [(name, t)]
  | (n, u) :: rest => if n = name then (n, t) :: rest else (n, u) :: putEntry name t rest

/-- Puts a tree at the end of a chain of names; directories on the way are made. -/
def put (new : FileTree) (t : FileTree) : List String → FileTree
  | [] => new
  | name :: names =>
    let inner := (t.child? name).getD (directory [])
    let entries := match t with
      | directory entries => entries
      | file _ => []
    directory (putEntry name (new.put inner names) entries)

mutual
/-- The files of a tree, each with the names that lead to it, last first. -/
def filesBelow (above : List String) : FileTree → List (List String × ByteArray)
  | file contents => [(above, contents)]
  | directory entries => filesOf above entries

def filesOf (above : List String) : List (String × FileTree) → List (List String × ByteArray)
  | [] => []
  | (name, t) :: rest => filesBelow (name :: above) t ++ filesOf above rest
end

/-- The files of a tree with the names that lead to each. -/
def files (t : FileTree) : List (List String × ByteArray) :=
  (filesBelow [] t).map fun (names, contents) => (names.reverse, contents)

end FileTree

/-- A tree of files and the directory that relative paths start from. -/
structure Disk where
  root : FileTree
  here : List String

namespace Disk

/-- Longer names are refused. -/
def maxNameBytes : Nat := 255

/-- Longer paths are refused, counting the zero that ends them. -/
def maxPathBytes : Nat := 4095

/-- Refuses a place that is not a directory. -/
def enter (root : FileTree) (place : List String) : Except FileError Unit :=
  match root.find? place with
  | none => .error .notFound
  | some (.file _) => .error .notDirectory
  | some (.directory _) => .ok ()

/-- Takes one step from a place that must be a directory. A name may lead to nothing. -/
def step (root : FileTree) (place : List String) (part : String) : Except FileError (List String) :=
  match enter root place with
  | .error e => .error e
  | .ok () =>
    if part = "" ∨ part = "." then .ok place
    else if part = ".." then .ok place.dropLast
    else if maxNameBytes < part.utf8ByteSize then .error .nameTooLong
    else .ok (place ++ [part])

def walk (root : FileTree) (place : List String) : List String → Except FileError (List String)
  | [] => .ok place
  | part :: parts => match step root place part with
    | .ok next => walk root next parts
    | .error e => .error e

/-- The parts of a path and the place that they start from. -/
def parts (d : Disk) (p : Path) : Except FileError (List String × List String) :=
  if p.text.contains '\x00' then .error .zeroByteInName
  else if p.text = "" then .error .notFound
  else if maxPathBytes < p.text.utf8ByteSize then .error .nameTooLong
  else
    let start := if p.text.startsWith '/' then [] else d.here
    .ok (start, (Path.split p.text.toList).map String.ofList)

/-- The contents of a file. A directory can be opened but not read. -/
def read (d : Disk) (p : Path) : Except ReadFailure ByteArray :=
  match d.parts p with
  | .error e => .error (.opening e)
  | .ok (start, parts) => match walk d.root start parts with
    | .error e => .error (.opening e)
    | .ok place => match d.root.find? place with
      | none => .error (.opening .notFound)
      | some (.directory _) => .error (.reading .isDirectory)
      | some (.file contents) => .ok contents

/-- The place of the file that `p` names, if it may be made there or written to. The last part
must be a name; this is looked at before the name itself. -/
def writable (d : Disk) (p : Path) : Except FileError (List String) :=
  match d.parts p with
  | .error e => .error e
  | .ok (start, parts) =>
    match parts.reverse.dropWhile (· == "") with
    | [] => .error .isDirectory
    | last :: before => match walk d.root start before.reverse with
      | .error e => .error e
      | .ok dir => match enter d.root dir with
        | .error e => .error e
        | .ok () =>
          if last = "." ∨ last = ".." ∨ parts.getLast? = some "" then .error .isDirectory
          else match step d.root dir last with
            | .error e => .error e
            | .ok place => match d.root.find? place with
              | some (.directory _) => .error .isDirectory
              | _ => .ok place

/-- Makes a file or replaces its contents. -/
def write (d : Disk) (p : Path) (contents : ByteArray) : Except FileError Disk :=
  match d.writable p with
  | .error e => .error e
  | .ok place => .ok { d with root := (FileTree.file contents).put d.root place }

/-! ## Setting up -/

/-- The place that the parts of a path lead to. Directories on the way are made. -/
def makeWay (root : FileTree) (place : List String) : List String → FileTree × List String
  | [] => (root, place)
  | part :: parts =>
    if part = "" ∨ part = "." then makeWay root place parts
    else if part = ".." then makeWay root place.dropLast parts
    else
      let next := place ++ [part]
      let root := if (root.find? next).isSome then root else (FileTree.directory []).put root next
      makeWay root next parts

/-- Makes a directory and those above it. -/
def addDirectory (d : Disk) (p : Path) : Disk :=
  let parts := (Path.split p.text.toList).map String.ofList
  { d with root := (makeWay d.root d.here parts).1 }

/-- Makes a file and the directories above it. -/
def addFile (d : Disk) (p : Path) (contents : ByteArray) : Disk :=
  let parts := (Path.split p.text.toList).map String.ofList
  let (root, place) := makeWay d.root d.here parts.dropLast
  { d with root := (FileTree.file contents).put root (place ++ parts.getLast?.toList) }

end Disk

instance : FileAccess (StateM Disk) where
  read p := fun d => (d.read p, d)
  write p contents := fun d => match d.write p contents with
    | .ok d => (.ok (), d)
    | .error e => (.error e, d)

end Emend
