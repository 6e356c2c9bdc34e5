import Marginalia.Failure
import Marginalia.Path

/-! # File trees

The files below a working directory, as a value. A location is the list of names that lead to
a file or a directory from there; a path is followed name by name, where every name but the
last has to lead to a directory.
-/

namespace Marginalia

/-- What a file holds. -/
inductive Content
  | text (value : String)
  /-- Bytes that are no text. -/
  | binary (bytes : List UInt8)
  deriving DecidableEq, Repr

/-- The names that lead to a file or a directory. -/
abbrev Location := List String

inductive Entry
  | file (content : Content)
  | directory
  deriving DecidableEq, Repr

/-- The files and the directories that were made on their own. A directory above either is
there as well. -/
structure FileTree where
  files : List (Location × Content) := []
  directories : List Location := []
  deriving DecidableEq, Repr

namespace FileTree

/-- Whether a location is a directory: the working directory, one that was made, or one above
a file or a directory. -/
def isDirectoryAt (tree : FileTree) (location : Location) : Bool :=
  location.isEmpty || tree.directories.any location.isPrefixOf ||
    tree.files.any fun (file, _) => location.isPrefixOf file && location != file

/-- What stands at a location. -/
def entry? (tree : FileTree) (location : Location) : Option Entry :=
  match tree.files.lookup location with
  | some content => some (.file content)
  | none => if tree.isDirectoryAt location then some .directory else none

/-- Follows the names of a path from a location. Going up from the working directory leads
nowhere. -/
def follow (tree : FileTree) (here : Location) : List (List Char) → Except FileFault Location
  | [] => .ok here
  | name :: names =>
    match tree.entry? here with
    | none => .error .notFound
    | some (.file _) => .error .notDirectory
    | some .directory =>
      if name == [] || name == ['.'] then tree.follow here names
      else if name == ['.', '.'] then
        if here.isEmpty then .error .notFound else tree.follow here.dropLast names
      else tree.follow (here ++ [String.ofList name]) names

/-- The location that a path leads to, whether something stands there or not. -/
def locate (tree : FileTree) (path : String) : Except FileFault Location :=
  if path.isEmpty then .error .notFound else tree.follow [] (Path.pieces [] path.toList)

def find? (tree : FileTree) (path : String) : Option Entry :=
  match tree.locate path with
  | .ok location => tree.entry? location
  | .error _ => none

/-- Whether a path leads to a file or a directory. -/
def pathExists (tree : FileTree) (path : String) : Bool := (tree.find? path).isSome

def isDirectory (tree : FileTree) (path : String) : Bool := tree.find? path == some .directory

def readText (tree : FileTree) (path : String) : Except FileFault String := do
  match tree.entry? (← tree.locate path) with
  | none => .error .notFound
  | some .directory => .error .isDirectory
  | some (.file (.binary _)) => .error .notText
  | some (.file (.text value)) => .ok value

/-- Puts a text into the file at a location, which is new or gets a new content. -/
def put (location : Location) (content : Content) :
    List (Location × Content) → List (Location × Content)
  | [] => [(location, content)]
  | file :: files =>
    if file.1 == location then (location, content) :: files
    else file :: put location content files

/-- The location of the file that is written at a path. A slash at the end stands behind
directories only. -/
def locateTarget (tree : FileTree) (path : String) : Except FileFault Location := do
  let pieces := Path.pieces [] path.toList
  let names := (pieces.reverse.dropWhile List.isEmpty).reverse
  let location ← tree.follow [] names
  if path.isEmpty then throw .notFound
  if names.length < pieces.length then throw .isDirectory
  return location

/-- Writes a text to a file. Its directory has to be there. -/
def writeText (tree : FileTree) (path text : String) : Except FileFault FileTree := do
  let location ← tree.locateTarget path
  match tree.entry? location, tree.entry? location.dropLast with
  | some .directory, _ => .error .isDirectory
  | some (.file _), _ | none, some .directory =>
    .ok { tree with files := put location (.text text) tree.files }
  | none, some (.file _) => .error .notDirectory
  | none, none => .error .notFound

/-- Makes a directory, and those above it, unless it is there. -/
def makeDirectory (tree : FileTree) (location : Location) : Except FileFault FileTree :=
  match tree.entry? location with
  | some .directory => .ok tree
  | some (.file _) => .error .alreadyExists
  | none =>
    if tree.files.any fun (file, _) => file.isPrefixOf location then .error .notDirectory
    else .ok { tree with directories := tree.directories ++ [location] }

/-- How two locations are ordered: name by name. -/
def locationLe (first second : Location) : Bool := !decide (second < first)

/-- The files below a directory, as their locations from there, in the order of their names. -/
def filesBelow (tree : FileTree) (directory : Location) : List Location :=
  (tree.files.filterMap fun (file, _) =>
    if directory.isPrefixOf file then some (file.drop directory.length) else none).mergeSort
      locationLe

/-- The paths of the files below a directory, except those that are hidden or lie in a hidden
directory. A name that begins with a point hides what it names. -/
def visibleFiles (tree : FileTree) (path : String) : List String :=
  match tree.locate path with
  | .error _ => []
  | .ok directory =>
    ((tree.filesBelow directory).filter fun file =>
      !file.isEmpty && !file.any fun name => name.toList.head? == some '.').map fun file =>
        Path.join path ("/".intercalate file)

end FileTree

end Marginalia
