/-! # Paths

A path is a text whose components slashes separate. Empty components and those that are a
single point name nothing.
-/

namespace Marginalia.Path

/-- The pieces between the slashes of a path; the first argument is the piece before the text,
back to front. -/
def pieces (piece : List Char) : List Char → List (List Char)
  | [] => [piece.reverse]
  | c :: rest => if c == '/' then piece.reverse :: pieces [] rest else pieces (c :: piece) rest

/-- The components of a path that name something, parents among them. -/
def components (path : String) : List (List Char) :=
  (pieces [] path.toList).filter fun piece => piece != [] && piece != ['.']

/-- The name of the file or directory that a path ends with, unless it ends with a parent. -/
def fileName? (path : String) : Option (List Char) :=
  match (components path).getLast? with
  | none => none
  | some name => if name == ['.', '.'] then none else some name

/-- The characters behind the last point, if something stands before it. -/
def extensionOf? (name : List Char) : Option (List Char) :=
  let reversed := name.reverse
  let extension := reversed.takeWhile (· != '.')
  match reversed.drop extension.length with
  | _ :: _ :: _ => some extension.reverse
  | _ => none

def extension? (path : String) : Option String :=
  ((fileName? path).bind extensionOf?).map String.ofList

/-- The path of an entry of a directory. -/
def join (directory name : String) : String :=
  if directory.toList.getLast? == some '/' || directory.isEmpty then directory ++ name
  else directory ++ "/" ++ name

end Marginalia.Path
