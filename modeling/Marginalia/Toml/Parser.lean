import Marginalia.Toml.Number
import Marginalia.Toml.Text
import Marginalia.Toml.Tree

/-! # Reading TOML

A document is a sequence of lines, each of which sets a value, opens a table or adds an
element to an array of tables. Arrays and inline tables nest at most 79 deep, and a dotted key
has at most 79 parts.
-/

namespace Marginalia.Toml

/-- The greatest depth of nesting, and the greatest number of parts of a key. -/
def depthLimit : Nat := 79

/-! ## Keys -/

/-- Whether the character may stand in a key without quotes. -/
def isBare (c : Char) : Bool := c.isAlphanum || c == '_' || c == '-'

def readKeyPart : List Char → Option (String × List Char)
  | '"' :: rest => do
    let (key, rest) ← readBasic rest
    some (String.ofList key, rest)
  | '\'' :: rest => do
    let (key, rest) ← readLiteral rest
    some (String.ofList key, rest)
  | text =>
    let key := text.takeWhile isBare
    if key.isEmpty then none else some (String.ofList key, text.drop key.length)

/-- Reads the parts of a key, which points and blanks may separate; the first argument is the
number of parts that may follow. -/
def readKeyParts : Nat → List Char → Option (List String × List Char)
  | 0, _ => none
  | allowance + 1, text => do
    let (part, rest) ← readKeyPart (skipSpaces text)
    match skipSpaces rest with
    | '.' :: rest =>
      let (parts, rest) ← readKeyParts allowance rest
      some (part :: parts, rest)
    | rest => some ([part], rest)

def readKey (text : List Char) : Option (List String × List Char) := readKeyParts depthLimit text

/-! ## Values -/

/-- Removes a comment at the front, up to the end of its line. -/
def skipComment : List Char → List Char
  | '#' :: rest => rest.dropWhile isPlain
  | text => text

/-- Removes the blanks, comments and line breaks at the front. -/
def skipLines : Nat → List Char → List Char
  | 0, text => text
  | fuel + 1, text =>
    match afterNewline? (skipComment (skipSpaces text)) with
    | some rest => skipLines fuel rest
    | none => skipSpaces text

mutual

/-- Reads a value; `depth` is the depth of nesting that is still allowed. -/
def readValue : Nat → Nat → List Char → Option (Data × List Char)
  | 0, _, _ => none
  | fuel + 1, depth, text =>
    match text with
    | '"' :: _ | '\'' :: _ => do
      let (value, rest) ← readText text
      some (.ofString (String.ofList value), rest)
    | '[' :: rest =>
      if depth == 0 then none
      else
        match skipLines rest.length rest with
        | ']' :: rest => some (.list [], rest)
        | rest => do
          let (items, rest) ← readItems fuel (depth - 1) rest
          some (.list items, rest)
    | '\x7b' :: rest =>
      if depth == 0 then none
      else
        match skipSpaces rest with
        | '\x7d' :: rest => some (.record [], rest)
        | rest => do
          let (entries, rest) ← readPairs fuel (depth - 1) [] rest
          some (.record (Node.recordOf entries), rest)
    | 't' :: 'r' :: 'u' :: 'e' :: rest => some (.bool true, rest)
    | 'f' :: 'a' :: 'l' :: 's' :: 'e' :: rest => some (.bool false, rest)
    | text => readNumber text

/-- Reads the items of an array, of which there is at least one, and its closing bracket. -/
def readItems : Nat → Nat → List Char → Option (List Data × List Char)
  | 0, _, _ => none
  | fuel + 1, depth, text => do
    let (item, rest) ← readValue fuel depth text
    match skipLines rest.length rest with
    | ']' :: rest => some ([item], rest)
    | ',' :: rest =>
      match skipLines rest.length rest with
      | ']' :: rest => some ([item], rest)
      | rest =>
        let (items, rest) ← readItems fuel depth rest
        some (item :: items, rest)
    | _ => none

/-- Reads the pairs of an inline table, of which there is at least one, and its closing brace,
and adds them to the entries. -/
def readPairs : Nat → Nat → Entries → List Char → Option (Entries × List Char)
  | 0, _, _, _ => none
  | fuel + 1, depth, entries, text => do
    let (key, rest) ← readKey text
    let rest ← expect '=' rest
    let (value, rest) ← readValue fuel depth (skipSpaces rest)
    let entries ← entries.insert value key
    match skipSpaces rest with
    | '\x7d' :: rest => some (entries, rest)
    | ',' :: rest => readPairs fuel depth entries rest
    | _ => none

end

/-! ## Lines -/

inductive Line
  | blank
  | pair (key : List String) (value : Data)
  | header (path : List String)
  | elementHeader (path : List String)

/-- Reads the end of a line: blanks, a comment, and a line break or the end of the text. -/
def readLineEnd (text : List Char) : Option (List Char) :=
  match skipComment (skipSpaces text) with
  | [] => some []
  | text => afterNewline? text

def readLine (text : List Char) : Option (Line × List Char) :=
  match skipSpaces text with
  | [] => some (.blank, [])
  | '#' :: rest => do some (.blank, ← readLineEnd ('#' :: rest))
  | '\n' :: rest => some (.blank, rest)
  | '\r' :: rest => do some (.blank, ← afterNewline? ('\r' :: rest))
  | '[' :: '[' :: rest => do
    let (path, rest) ← readKey rest
    let rest ← expect ']' (← expect ']' rest)
    some (.elementHeader path, ← readLineEnd rest)
  | '[' :: rest => do
    let (path, rest) ← readKey rest
    let rest ← expect ']' rest
    some (.header path, ← readLineEnd rest)
  | text => do
    let (key, rest) ← readKey text
    let rest ← expect '=' rest
    let (value, rest) ← readValue (rest.length + 1) depthLimit (skipSpaces rest)
    some (.pair key value, ← readLineEnd rest)

def readLines : Nat → List Char → Option (List Line)
  | _, [] => some []
  | 0, _ => none
  | fuel + 1, text => do
    let (line, rest) ← readLine text
    some (line :: (← readLines fuel rest))

/-! ## Documents -/

/-- A document in the making: its entries and the path of the table that lines add to. -/
structure Draft where
  entries : Entries := []
  path : List String := []

/-- Does what a line says. -/
def Draft.add (draft : Draft) : Line → Option Draft
  | .blank => some draft
  | .pair key value => do
    some { draft with entries := ← draft.entries.within (Entries.insert value key) draft.path }
  | .header path => do
    let key ← path.getLast?
    some ⟨← draft.entries.within (Entries.declare key) path.dropLast, path⟩
  | .elementHeader path => do
    let key ← path.getLast?
    some ⟨← draft.entries.within (Entries.addElement key) path.dropLast, path⟩

/-- The value of a document, a record, if the text is TOML. A byte order mark at the front is
passed over. -/
def parse? (source : String) : Option Data := do
  let text := match source.toList with
    | '\ufeff' :: text => text
    | text => text
  let lines ← readLines (text.length + 1) text
  let draft ← lines.foldlM Draft.add ({ } : Draft)
  some (.record (Node.recordOf draft.entries))

end Marginalia.Toml
