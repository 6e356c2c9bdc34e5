import Marginalia.Json.Printer

/-! # Writing TOML

A text is written in the plainest of five forms that can hold it: in double quotes without
escapes, in single quotes, in three double quotes without escapes, in three single quotes, and
at last with escapes, in three double quotes if it holds a line break. A form of three quotes
begins with a line break exactly when the text holds one.
-/

namespace Marginalia.Toml

/-- What decides about the form of a text. -/
structure Traits where
  /-- The length of the longest run of single quotes. -/
  singleRun : Nat
  /-- The length of the longest run of double quotes. -/
  doubleRun : Nat
  hasBackslash : Bool
  hasNewline : Bool
  /-- Whether it holds a control character other than the tab and the line feed. -/
  hasControl : Bool

/-- The length of the longest run of the character in the text, where `current` of them stand
right before it. -/
def longestRun (quote : Char) (current : Nat) : List Char → Nat
  | [] => current
  | c :: rest =>
    if c == quote then longestRun quote (current + 1) rest
    else max current (longestRun quote 0 rest)

/-- Whether the character is a control character other than the tab and the line feed. -/
def isHardControl (c : Char) : Bool :=
  (c.toNat < 0x20 && c != '\t' && c != '\n') || c.toNat == 0x7f

def Traits.of (text : List Char) : Traits where
  singleRun := longestRun '\'' 0 text
  doubleRun := longestRun '"' 0 text
  hasBackslash := text.contains '\\'
  hasNewline := text.contains '\n'
  hasControl := text.any isHardControl

/-- The forms of a text. -/
inductive Form
  | basic
  | literal
  | basicLines
  | literalLines
  deriving DecidableEq

/-- The plainest form that can hold a text with the traits. -/
def Traits.form (traits : Traits) : Form :=
  if !traits.hasControl && !traits.hasBackslash && traits.doubleRun == 0 && !traits.hasNewline then
    .basic
  else if !traits.hasControl && traits.singleRun == 0 && !traits.hasNewline then .literal
  else if !traits.hasControl && !traits.hasBackslash && traits.doubleRun ≤ 2 then .basicLines
  else if !traits.hasControl && traits.singleRun ≤ 2 then .literalLines
  else if traits.hasNewline then .basicLines
  else .basic

/-- The escape of a control character. -/
def escapeControl (c : Char) : List Char :=
  match c with
  | '\x08' => ['\\', 'b']
  | '\t' => ['\\', 't']
  | '\n' => ['\\', 'n']
  | '\x0c' => ['\\', 'f']
  | '\r' => ['\\', 'r']
  | c =>
    ['\\', 'u', '0', '0', (Json.hexDigit (c.toNat / 16)).toUpper,
      (Json.hexDigit (c.toNat % 16)).toUpper]

/-- The text with escapes. Of double quotes in a row as many as `allowed` stay as they are
before one is escaped, and line feeds stay when `keepNewlines` holds; `run` double quotes in a
row stand right before the text. -/
def escape (allowed : Nat) (keepNewlines : Bool) (run : Nat) : List Char → List Char
  | [] => []
  | c :: rest =>
    if c == '"' then
      if run < allowed then '"' :: escape allowed keepNewlines (run + 1) rest
      else '\\' :: '"' :: escape allowed keepNewlines 0 rest
    else if c == '\\' then '\\' :: '\\' :: escape allowed keepNewlines 0 rest
    else if c == '\n' && keepNewlines then '\n' :: escape allowed keepNewlines 0 rest
    else if c.toNat < 0x20 || c.toNat == 0x7f then
      escapeControl c ++ escape allowed keepNewlines 0 rest
    else c :: escape allowed keepNewlines 0 rest

def quoteList (text : List Char) : List Char :=
  let traits := Traits.of text
  let lineBreak := if traits.hasNewline then ['\n'] else []
  match traits.form with
  | .basic => '"' :: escape 0 false 0 text ++ ['"']
  | .literal => '\'' :: text ++ ['\'']
  | .basicLines => '"' :: '"' :: '"' :: lineBreak ++ escape 2 true 0 text ++ ['"', '"', '"']
  | .literalLines => '\'' :: '\'' :: '\'' :: lineBreak ++ text ++ ['\'', '\'', '\'']

def quote (text : String) : String := String.ofList (quoteList text.toList)

/-- The value of a setting: a text or a count. -/
inductive Scalar
  | text (value : String)
  | count (value : Nat)

/-- The written form of a value; a count beyond the signed 64 bits has none. -/
def Scalar.render? : Scalar → Option String
  | .text value => some (quote value)
  | .count value => if value < Nat.pow 2 63 then some (toString value) else none

structure Section where
  name : String
  pairs : List (String × Scalar)

/-- The written form of a table: its header, and a line for each pair. -/
def Section.render? (table : Section) : Option String := do
  let lines ← table.pairs.mapM fun (key, value) => do
    some (key ++ " = " ++ (← value.render?) ++ "\n")
  some ("[" ++ table.name ++ "]\n" ++ String.join lines)

/-- The written form of a document: its tables, with an empty line between them. -/
def render? (tables : List Section) : Option String := do
  some ("\n".intercalate (← tables.mapM Section.render?))

end Marginalia.Toml
