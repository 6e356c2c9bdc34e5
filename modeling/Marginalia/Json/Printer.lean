import Marginalia.Data.Basic

/-! # Writing JSON

The compact form and the form with one item a line, indented by two spaces. In texts only the
quote, the backslash and the control characters are escaped.
-/

namespace Marginalia.Json

def hexDigit (value : Nat) : Char := (Nat.digitChar value)

/-- The written form of one character of a text. -/
def escapeChar (c : Char) : List Char :=
  match c with
  | '"' => ['\\', '"']
  | '\\' => ['\\', '\\']
  | '\x08' => ['\\', 'b']
  | '\t' => ['\\', 't']
  | '\n' => ['\\', 'n']
  | '\x0c' => ['\\', 'f']
  | '\r' => ['\\', 'r']
  | c =>
    if c.toNat < 0x20 then
      ['\\', 'u', '0', '0', hexDigit (c.toNat / 16), hexDigit (c.toNat % 16)]
    else [c]

def quote (text : String) : String :=
  String.ofList ('"' :: text.toList.flatMap escapeChar ++ ['"'])

/-- The written form of a text that may be broken; a broken one shows as a replacement
character. -/
def quote? (text : Option String) : String := quote (text.getD "\ufffd")

mutual

/-- The compact form of a value. -/
def compact : Data → String
  | .null => "null"
  | .bool value => if value then "true" else "false"
  | .integer value => toString value
  | .real literal => literal
  | .text value => quote? value
  | .list items => "[" ++ ",".intercalate (compactItems items) ++ "]"
  | .record entries => "\x7b" ++ ",".intercalate (compactEntries entries) ++ "\x7d"

def compactItems : List Data → List String
  | [] => []
  | item :: items => compact item :: compactItems items

def compactEntries : List (Option String × Data) → List String
  | [] => []
  | (name, value) :: entries => (quote? name ++ ":" ++ compact value) :: compactEntries entries

end

/-- A line break and the indentation of the given depth. -/
def lineBreak (depth : Nat) : String := "\n" ++ String.ofList (List.replicate (2 * depth) ' ')

/-- The parts between brackets, one a line. -/
def block (depth : Nat) (opening closing : String) : List String → String
  | [] => opening ++ closing
  | parts =>
    opening ++ lineBreak (depth + 1) ++ ("," ++ lineBreak (depth + 1)).intercalate parts ++
      lineBreak depth ++ closing

mutual

/-- The form of a value with one item a line, where its lines stand at the given depth. -/
def indented (depth : Nat) : Data → String
  | .list items => block depth "[" "]" (indentedItems (depth + 1) items)
  | .record entries => block depth "\x7b" "\x7d" (indentedEntries (depth + 1) entries)
  | .null => "null"
  | .bool value => if value then "true" else "false"
  | .integer value => toString value
  | .real literal => literal
  | .text value => quote? value

def indentedItems (depth : Nat) : List Data → List String
  | [] => []
  | item :: items => indented depth item :: indentedItems depth items

def indentedEntries (depth : Nat) : List (Option String × Data) → List String
  | [] => []
  | (name, value) :: entries =>
    (quote? name ++ ": " ++ indented depth value) :: indentedEntries depth entries

end

/-- The form of a value with one item a line. -/
def pretty (value : Data) : String := indented 0 value

end Marginalia.Json
