namespace XmlStream.Wrap

/-! The files that a command can see, as a value. Paths are resolved name by name
from the working directory. -/

inductive FileError
  | notFound
  | notADirectory
  | isADirectory
  | nameTooLong
deriving DecidableEq, Repr

def FileError.message : FileError → String
  | .notFound => "No such file or directory (os error 2)"
  | .notADirectory => "Not a directory (os error 20)"
  | .isADirectory => "Is a directory (os error 21)"
  | .nameTooLong => "File name too long (os error 36)"

def namesBetween : List Char → List (List Char)
  | [] => [[]]
  | '/' :: rest => [] :: namesBetween rest
  | character :: rest =>
    match namesBetween rest with
    | [] => [[character]]
    | name :: names => (character :: name) :: names

/-- The names a path is made of. Repeated slashes and a slash at the end leave
empty names. -/
def pathNames (path : String) : List String :=
  (namesBetween path.toList).map String.ofList

def endsInSlash (path : String) : Bool := path.toList.getLast? == some '/'

/-- The names that lead to the directory around the last name of a path. The empty
name at the end of the list can only be entered in a directory. -/
def namesAround (path : String) : List String :=
  ((pathNames path).reverse.dropWhile (· == "")).tail.reverse ++ [""]

def nameLimit : Nat := 255

def pathLimit : Nat := 4096

/-- The last name of a path. Empty names and dots do not count, and a path that
leads upwards, or nowhere, has none. -/
def lastName? (path : String) : Option String :=
  match ((pathNames path).filter fun name => name ≠ "" && name ≠ ".").getLast? with
  | some ".." => none
  | last => last

/-- A place in the tree: the names that lead to it, last name first. The names `..`
at the end of the list lead out of the working directory. -/
abbrev Location := List String

def Location.root : Location := ["/"]

def Location.devices : Location := "dev" :: Location.root

/-- The device that is always empty, whatever is written to it. -/
def Location.nullDevice : Location := "null" :: Location.devices

/-- Where a name leads. Nothing is above the root. -/
def Location.enter (here : Location) : String → Location
  | "" | "." => here
  | ".." =>
    match here with
    | [] => [".."]
    | ["/"] => Location.root
    | ".." :: _ => ".." :: here
    | _ :: above => above
  | name => name :: here

def Location.ancestors : Location → List Location
  | [] => []
  | _ :: above => above :: Location.ancestors above

structure FileTree where
  files : List (Location × ByteArray) := []
  directories : List Location := []
  /-- How large the system says that a directory is. -/
  directorySize : Location → Nat := fun _ => 4096

inductive Opened
  | file (content : ByteArray)
  /-- A directory can be opened, but not read. -/
  | directory (size : Nat)

namespace Opened

def size : Opened → Nat
  | .file content => content.size
  | .directory size => size

def read : Opened → Except FileError ByteArray
  | .file content => .ok content
  | .directory _ => .error .isADirectory

end Opened

namespace FileTree

def fileAt? (tree : FileTree) (location : Location) : Option ByteArray :=
  if location = .nullDevice then some .empty
  else (tree.files.find? (·.1 == location)).map (·.2)

/-- Whether a place is a directory. What encloses the working directory is one. -/
def isDirectory (tree : FileTree) (location : Location) : Bool :=
  location.all (· == "..") || location == .root || location == .devices ||
    tree.directories.contains location

/-- Follow names from a place. Only a directory can be left by a name. -/
def follow (tree : FileTree) (here : Location) : List String → Except FileError Location
  | [] => .ok here
  | name :: rest =>
    if tree.isDirectory here then
      if nameLimit < name.utf8ByteSize then .error .nameTooLong
      else tree.follow (here.enter name) rest
    else if (tree.fileAt? here).isSome then .error .notADirectory
    else .error .notFound

def startOf (path : String) : Location :=
  if path.toList.head? == some '/' then .root else []

/-- The place that the names of a path lead to. The empty path leads nowhere. -/
def locate (tree : FileTree) (path : String) (names : List String) :
    Except FileError Location :=
  if path = "" then .error .notFound
  else if pathLimit ≤ path.utf8ByteSize then .error .nameTooLong
  else tree.follow (startOf path) names

def openedAt? (tree : FileTree) (location : Location) : Option Opened :=
  match tree.fileAt? location with
  | some content => some (.file content)
  | none =>
    if tree.isDirectory location then some (.directory (tree.directorySize location)) else none

def opened (tree : FileTree) (path : String) : Except FileError Opened := do
  let location ← tree.locate path (pathNames path)
  match tree.openedAt? location with
  | some opened => .ok opened
  | none => .error .notFound

def read (tree : FileTree) (path : String) : Except FileError ByteArray := do
  (← tree.opened path).read

def read? (tree : FileTree) (path : String) : Option ByteArray := (tree.read path).toOption

def put (tree : FileTree) (location : Location) (content : ByteArray) : FileTree :=
  if location = .nullDevice then tree
  else { tree with files := (location, content) :: tree.files.filter (·.1 != location) }

/-- The place for a file that is to be written. It must not be a directory, and a
path with a slash at its end can only mean one. So the last name of such a path is
not looked up, but the directory around it has to be there. -/
def placeFor (tree : FileTree) (path : String) : Except FileError Location := do
  if endsInSlash path then
    let _ ← tree.locate path (namesAround path)
    .error .isADirectory
  else
    let location ← tree.locate path (pathNames path)
    if tree.isDirectory location then .error .isADirectory else .ok location

def add (tree : FileTree) (path : String) (content : ByteArray) : FileTree :=
  let location := (pathNames path).foldl Location.enter (startOf path)
  { tree.put location content with
    directories := location.ancestors ++ tree.directories }

def addDirectory (tree : FileTree) (path : String) : FileTree :=
  let location := (pathNames path).foldl Location.enter (startOf path)
  { tree with directories := location :: location.ancestors ++ tree.directories }

def ofFiles (files : List (String × ByteArray)) : FileTree :=
  files.foldl (fun tree (path, content) => tree.add path content) {}

/-- What is above the root is the root itself, and not the working directory. -/
example : (ofFiles [("note", .empty)]).read? "/../note" = none := by decide +kernel

/-- A slash after a name asks for a directory, and no directory can be written. -/
example : ((ofFiles [("note", .empty)]).placeFor "note").toOption = some ["note"] ∧
    ((ofFiles [("note", .empty)]).placeFor "note/").toOption = none := by decide +kernel

end FileTree

end XmlStream.Wrap
