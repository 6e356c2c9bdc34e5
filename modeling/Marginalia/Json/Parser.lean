import Marginalia.Data.Basic
import Marginalia.Data.Decimal

/-! # Reading JSON

Reading accepts the grammar of JSON and leaves open what a value is used for: numbers of any
size, nesting of any depth and texts with unpaired surrogates are read, and `Data.isSound`
tells whether a value is free of them. A structure that is read from the value then judges
only the fields it knows.
-/

namespace Marginalia.Json

def skipBlanks (text : List Char) : List Char :=
  text.dropWhile fun c => c == ' ' || c == '\t' || c == '\n' || c == '\r'

/-! ## Texts -/

/-- A piece of a written text: a character, or a code unit that an escape names. -/
inductive Piece
  | char (c : Char)
  | unit (value : Nat)

def hexDigit? (c : Char) : Option Nat :=
  if c.isDigit then some (c.toNat - '0'.toNat)
  else if 'a' ≤ c ∧ c ≤ 'f' then some (c.toNat - 'a'.toNat + 10)
  else if 'A' ≤ c ∧ c ≤ 'F' then some (c.toNat - 'A'.toNat + 10)
  else none

/-- The code unit with the four hexadecimal digits. -/
def codeUnit? (a b c d : Char) : Option Nat := do
  some (4096 * (← hexDigit? a) + 256 * (← hexDigit? b) + 16 * (← hexDigit? c) + (← hexDigit? d))

/-- Reads the pieces of a text up to its closing quote. -/
def readPieces : List Char → Option (List Piece × List Char)
  | [] => none
  | '"' :: rest => some ([], rest)
  | '\\' :: 'u' :: a :: b :: c :: d :: rest => do
    let value ← codeUnit? a b c d
    let (pieces, rest) ← readPieces rest
    some (.unit value :: pieces, rest)
  | '\\' :: escape :: rest => do
    let c ← match escape with
      | '"' => some '"'
      | '\\' => some '\\'
      | '/' => some '/'
      | 'b' => some '\x08'
      | 'f' => some '\x0c'
      | 'n' => some '\n'
      | 'r' => some '\r'
      | 't' => some '\t'
      | _ => none
    let (pieces, rest) ← readPieces rest
    some (.char c :: pieces, rest)
  | c :: rest => do
    if c.toNat < 0x20 then none
    let (pieces, rest) ← readPieces rest
    some (.char c :: pieces, rest)

/-- Whether the code unit is the first half of a surrogate pair. -/
def isHighSurrogate (value : Nat) : Bool := 0xd800 ≤ value && value < 0xdc00

/-- Whether the code unit is the second half of a surrogate pair. -/
def isLowSurrogate (value : Nat) : Bool := 0xdc00 ≤ value && value < 0xe000

/-- The characters of the pieces; `none` when half a surrogate pair stands alone. -/
def joinPieces : List Piece → Option (List Char)
  | [] => some []
  | .char c :: pieces => (joinPieces pieces).map (c :: ·)
  | .unit high :: .unit low :: pieces =>
    if isHighSurrogate high && isLowSurrogate low then
      (joinPieces pieces).map
        (Char.ofNat (0x10000 + 0x400 * (high - 0xd800) + (low - 0xdc00)) :: ·)
    else if isHighSurrogate high || isLowSurrogate high then none
    else (joinPieces (.unit low :: pieces)).map (Char.ofNat high :: ·)
  | .unit value :: pieces =>
    if isHighSurrogate value || isLowSurrogate value then none
    else (joinPieces pieces).map (Char.ofNat value :: ·)

/-- Reads a text after its opening quote. -/
def readText (text : List Char) : Option (Option String × List Char) := do
  let (pieces, rest) ← readPieces text
  some ((joinPieces pieces).map String.ofList, rest)

/-! ## Numbers -/

/-- The parts of a written number. -/
structure Numeral where
  negative : Bool
  whole : List Char
  fraction : Option (List Char)
  exponent : Option (Bool × List Char)

namespace Numeral

/-- Reads a number: a sign, a whole part without leading zeros, a fraction and an exponent. -/
def read (text : List Char) : Option (Numeral × List Char) := do
  let (negative, text) := match text with
    | '-' :: text => (true, text)
    | _ => (false, text)
  let whole := match text with
    | '0' :: _ => ['0']
    | _ => text.takeWhile Char.isDigit
  if whole.isEmpty then none
  let text := text.drop whole.length
  let (fraction, text) ← match text with
    | '.' :: rest =>
      let digits := rest.takeWhile Char.isDigit
      if digits.isEmpty then none else some (some digits, rest.drop digits.length)
    | _ => some (none, text)
  let (exponent, text) ← match text with
    | 'e' :: rest | 'E' :: rest =>
      let (below, rest) := match rest with
        | '-' :: rest => (true, rest)
        | '+' :: rest => (false, rest)
        | _ => (false, rest)
      let digits := rest.takeWhile Char.isDigit
      if digits.isEmpty then none else some (some (below, digits), rest.drop digits.length)
    | _ => some (none, text)
  some (⟨negative, whole, fraction, exponent⟩, text)

/-- The magnitude of the number. -/
def magnitude (numeral : Numeral) : Decimal :=
  let exponent : Int := match numeral.exponent with
    | none => 0
    | some (below, digits) =>
      let value := Decimal.digitsValue digits
      if below then -value else value
  Decimal.ofParts numeral.whole (numeral.fraction.getD []) exponent

/-- The value of the number when it is written without fraction and exponent and lies within
64 bits, signed or unsigned. Minus zero is no integer. -/
def integer? (numeral : Numeral) : Option Int :=
  if numeral.fraction.isSome || numeral.exponent.isSome then none
  else
    let value := Decimal.digitsValue numeral.whole
    if numeral.negative then
      if value == 0 || Nat.pow 2 63 < value then none else some (-value)
    else if value < Nat.pow 2 64 then some value else none

end Numeral

def readNumber (text : List Char) : Option (Data × List Char) := do
  let (numeral, rest) ← Numeral.read text
  match numeral.integer? with
  | some value => some (.integer value, rest)
  | none => some (.real (String.ofList (text.take (text.length - rest.length))), rest)

/-! ## Values -/

mutual

def readValue : Nat → List Char → Option (Data × List Char)
  | 0, _ => none
  | fuel + 1, text =>
    match skipBlanks text with
    | 'n' :: 'u' :: 'l' :: 'l' :: rest => some (.null, rest)
    | 't' :: 'r' :: 'u' :: 'e' :: rest => some (.bool true, rest)
    | 'f' :: 'a' :: 'l' :: 's' :: 'e' :: rest => some (.bool false, rest)
    | '"' :: rest => do
      let (value, rest) ← readText rest
      some (.text value, rest)
    | '[' :: rest =>
      match skipBlanks rest with
      | ']' :: rest => some (.list [], rest)
      | rest => do
        let (items, rest) ← readItems fuel rest
        some (.list items, rest)
    | '\x7b' :: rest =>
      match skipBlanks rest with
      | '\x7d' :: rest => some (.record [], rest)
      | rest => do
        let (entries, rest) ← readEntries fuel rest
        some (.record entries, rest)
    | text => readNumber text

/-- Reads the items of a list, of which there is at least one, and its closing bracket. -/
def readItems : Nat → List Char → Option (List Data × List Char)
  | 0, _ => none
  | fuel + 1, text => do
    let (item, rest) ← readValue fuel text
    match skipBlanks rest with
    | ']' :: rest => some ([item], rest)
    | ',' :: rest =>
      let (items, rest) ← readItems fuel rest
      some (item :: items, rest)
    | _ => none

/-- Reads the entries of a record, of which there is at least one, and its closing brace. -/
def readEntries : Nat → List Char → Option (List (Option String × Data) × List Char)
  | 0, _ => none
  | fuel + 1, text =>
    match skipBlanks text with
    | '"' :: rest => do
      let (name, rest) ← readText rest
      match skipBlanks rest with
      | ':' :: rest =>
        let (value, rest) ← readValue fuel rest
        match skipBlanks rest with
        | '\x7d' :: rest => some ([(name, value)], rest)
        | ',' :: rest =>
          let (entries, rest) ← readEntries fuel rest
          some ((name, value) :: entries, rest)
        | _ => none
      | _ => none
    | _ => none

end

/-- The value that a text denotes, if it is JSON. -/
def parse? (source : String) : Option Data := do
  let text := source.toList
  let (value, rest) ← readValue (text.length + 1) text
  if (skipBlanks rest).isEmpty then some value else none

/-! ## Sound values -/

/-- Whether a number that was read is within the range of doubles. -/
def isFinite (literal : String) : Bool :=
  match Numeral.read literal.toList with
  | some (numeral, _) => !numeral.magnitude.overflows
  | none => false

mutual

/-- Whether a value nests at most as deep as the allowance, its numbers are finite and its
texts are texts. -/
def isSound : Nat → Data → Bool
  | _, .null | _, .bool _ | _, .integer _ => true
  | _, .real literal => isFinite literal
  | _, .text value => value.isSome
  | allowance, .list items => 0 < allowance && areSound (allowance - 1) items
  | allowance, .record entries => 0 < allowance && areSoundEntries (allowance - 1) entries

def areSound : Nat → List Data → Bool
  | _, [] => true
  | allowance, item :: items => isSound allowance item && areSound allowance items

def areSoundEntries : Nat → List (Option String × Data) → Bool
  | _, [] => true
  | allowance, (name, value) :: entries =>
    name.isSome && isSound allowance value && areSoundEntries allowance entries

end

/-- The value that a text denotes, if it is sound JSON that nests at most 127 deep. -/
def parseSound? (source : String) : Option Data :=
  (parse? source).filter (isSound 127)

end Marginalia.Json
