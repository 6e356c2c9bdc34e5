import Marginalia.Json.Parser

/-! # Texts in TOML

A text stands between double quotes, where a backslash escapes, or between single quotes,
where every character is literal. With three quotes on each side it may hold line breaks, a
line break right after the opening is not part of it, and up to two quotes may stand before
the closing ones. Line breaks are read as one line feed, however they are written.
-/

namespace Marginalia.Toml

def isSpace (c : Char) : Bool := c == ' ' || c == '\t'

def skipSpaces (text : List Char) : List Char := text.dropWhile isSpace

/-- Whether a text or a comment may hold the character as it is: no control character but the
tab. -/
def isPlain (c : Char) : Bool := c == '\t' || (0x20 ≤ c.toNat && c.toNat != 0x7f)

/-- The text behind the line break at the front, if there is one. -/
def afterNewline? : List Char → Option (List Char)
  | '\n' :: rest => some rest
  | '\r' :: '\n' :: rest => some rest
  | _ => none

/-- The character with the hexadecimal code point. -/
def scalar? (digits : List Char) : Option Char := do
  let point ← digits.foldlM (fun value c => do some (16 * value + (← Json.hexDigit? c))) 0
  if h : point.isValidChar then some (Char.ofNatAux point h) else none

/-- The character that a letter behind a backslash stands for. -/
def escaped? : Char → Option Char
  | 'b' => some '\x08'
  | 't' => some '\t'
  | 'n' => some '\n'
  | 'f' => some '\x0c'
  | 'r' => some '\r'
  | '"' => some '"'
  | '\\' => some '\\'
  | _ => none

/-- Reads a text on one line after its opening double quote. -/
def readBasic : List Char → Option (List Char × List Char)
  | [] => none
  | '"' :: rest => some ([], rest)
  | '\\' :: 'u' :: a :: b :: c :: d :: rest => do
    let char ← scalar? [a, b, c, d]
    let (text, rest) ← readBasic rest
    some (char :: text, rest)
  | '\\' :: 'U' :: a :: b :: c :: d :: e :: f :: g :: h :: rest => do
    let char ← scalar? [a, b, c, d, e, f, g, h]
    let (text, rest) ← readBasic rest
    some (char :: text, rest)
  | '\\' :: letter :: rest => do
    let char ← escaped? letter
    let (text, rest) ← readBasic rest
    some (char :: text, rest)
  | c :: rest => do
    if !isPlain c || c == '\\' then none
    let (text, rest) ← readBasic rest
    some (c :: text, rest)

/-- Reads a text on one line after its opening single quote. -/
def readLiteral : List Char → Option (List Char × List Char)
  | [] => none
  | '\'' :: rest => some ([], rest)
  | c :: rest => do
    if !isPlain c then none
    let (text, rest) ← readLiteral rest
    some (c :: text, rest)

/-- Whether a backslash in front of the text continues the line: only spaces and tabs stand
before its end. -/
def endsLine (text : List Char) : Bool := (afterNewline? (skipSpaces text)).isSome

/-- Reads a text over several lines after its three opening double quotes. While `skipping`
holds, behind a backslash that continues a line, blanks and line breaks are passed over. -/
def readBasicLines (skipping : Bool) : List Char → Option (List Char × List Char)
  | [] => none
  | '"' :: '"' :: '"' :: '"' :: '"' :: rest => some (['"', '"'], rest)
  | '"' :: '"' :: '"' :: '"' :: rest => some (['"'], rest)
  | '"' :: '"' :: '"' :: rest => some ([], rest)
  | '\r' :: '\n' :: rest =>
    if skipping then readBasicLines true rest
    else do
      let (text, rest) ← readBasicLines false rest
      some ('\n' :: text, rest)
  | '\n' :: rest =>
    if skipping then readBasicLines true rest
    else do
      let (text, rest) ← readBasicLines false rest
      some ('\n' :: text, rest)
  | '\\' :: 'u' :: a :: b :: c :: d :: rest => do
    let char ← scalar? [a, b, c, d]
    let (text, rest) ← readBasicLines false rest
    some (char :: text, rest)
  | '\\' :: 'U' :: a :: b :: c :: d :: e :: f :: g :: h :: rest => do
    let char ← scalar? [a, b, c, d, e, f, g, h]
    let (text, rest) ← readBasicLines false rest
    some (char :: text, rest)
  | '\\' :: letter :: rest =>
    if endsLine (letter :: rest) then readBasicLines true (letter :: rest)
    else do
      let char ← escaped? letter
      let (text, rest) ← readBasicLines false rest
      some (char :: text, rest)
  | c :: rest =>
    if skipping && isSpace c then readBasicLines true rest
    else if !isPlain c || c == '\\' then none
    else do
      let (text, rest) ← readBasicLines false rest
      some (c :: text, rest)

/-- Reads a text over several lines after its three opening single quotes. -/
def readLiteralLines : List Char → Option (List Char × List Char)
  | [] => none
  | '\'' :: '\'' :: '\'' :: '\'' :: '\'' :: rest => some (['\'', '\''], rest)
  | '\'' :: '\'' :: '\'' :: '\'' :: rest => some (['\''], rest)
  | '\'' :: '\'' :: '\'' :: rest => some ([], rest)
  | '\r' :: '\n' :: rest => do
    let (text, rest) ← readLiteralLines rest
    some ('\n' :: text, rest)
  | '\n' :: rest => do
    let (text, rest) ← readLiteralLines rest
    some ('\n' :: text, rest)
  | c :: rest => do
    if !isPlain c then none
    let (text, rest) ← readLiteralLines rest
    some (c :: text, rest)

def dropNewline (text : List Char) : List Char := (afterNewline? text).getD text

/-- Reads a text in any of the four forms, with its opening quotes. -/
def readText : List Char → Option (List Char × List Char)
  | '"' :: '"' :: '"' :: rest => readBasicLines false (dropNewline rest)
  | '"' :: rest => readBasic rest
  | '\'' :: '\'' :: '\'' :: rest => readLiteralLines (dropNewline rest)
  | '\'' :: rest => readLiteral rest
  | _ => none

end Marginalia.Toml
