/-! # Source documents

A document is the text of a file split into lines, with what is needed to put it together
again: the line ending, which is taken to be the same everywhere, whether a line ending stands
at the end, and whether a byte order mark stands at the beginning.
-/

namespace Marginalia

inductive LineEnding
  | lf
  | crlf
  deriving DecidableEq, Repr

def LineEnding.chars : LineEnding → List Char
  | lf => ['\n']
  | crlf => ['\r', '\n']

/-- A text in lines. -/
structure Document where
  lines : List String := []
  ending : LineEnding := .lf
  endsWithNewline : Bool := false
  hasByteOrderMark : Bool := false
  deriving DecidableEq, Repr

namespace Document

/-- The pieces of a text between its line feeds. -/
def splitLines : List Char → List (List Char)
  | [] => [[]]
  | c :: rest =>
    if c == '\n' then [] :: splitLines rest
    else
      match splitLines rest with
      | [] => [[c]]
      | line :: lines => (c :: line) :: lines

/-- The text without the character at its end, if it ends with it. -/
def dropLast (c : Char) (text : List Char) : List Char :=
  if text.getLast? == some c then text.dropLast else text

/-- Whether a carriage return stands right before a line feed somewhere. -/
def hasCrlf : List Char → Bool
  | '\r' :: '\n' :: _ => true
  | _ :: rest => hasCrlf rest
  | [] => false

/-- The text without a byte order mark at the front. -/
def dropMark : List Char → List Char
  | '\ufeff' :: rest => rest
  | text => text

/-- The lines of a text that begins with no byte order mark. The line feed at the end begins
no line, and a carriage return at the end of the text or of a line belongs to no line. -/
def linesOf (text : List Char) : List String :=
  if text.isEmpty then []
  else
    (splitLines (dropLast '\r' (dropLast '\n' text))).map fun line =>
      String.ofList (dropLast '\r' line)

def parse (content : String) : Document :=
  let chars := content.toList
  let text := dropMark chars
  { lines := linesOf text
    ending := if hasCrlf text then .crlf else .lf
    endsWithNewline := text.getLast? == some '\n'
    hasByteOrderMark := chars.head? == some '\ufeff' }

/-- The lines with the ending between them. -/
def joinLines (ending : List Char) : List (List Char) → List Char
  | [] => []
  | [line] => line
  | line :: lines => line ++ ending ++ joinLines ending lines

def render (document : Document) : String :=
  let ending := document.ending.chars
  String.ofList <|
    (if document.hasByteOrderMark then ['\ufeff'] else []) ++
      joinLines ending (document.lines.map String.toList) ++
      (if document.endsWithNewline then ending else [])

end Document

/-- A change of one line, with the line as it was and as it became. Lines count from zero. -/
structure Edit where
  line : Nat
  before : String
  after : String
  deriving DecidableEq, Repr

namespace Edit

/-- Makes the change; a line that does not exist stays away. -/
def apply (edit : Edit) (lines : List String) : List String := lines.set edit.line edit.after

def applyAll (edits : List Edit) (lines : List String) : List String :=
  edits.foldl (fun lines edit => edit.apply lines) lines

end Edit

end Marginalia
