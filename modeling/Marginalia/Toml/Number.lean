import Marginalia.Calendar
import Marginalia.Data.Decimal
import Marginalia.Json.Parser

/-! # Numbers and dates in TOML

Numbers may be grouped by single underscores between digits. Integers are signed and of 64
bits, and without a sign they may be written with the bases 16, 8 and 2. Dates and times
follow RFC 3339; a date reads as a record with one reserved entry, which no structure knows.
-/

namespace Marginalia.Toml

/-! ## Numbers -/

/-- The digits at the front, where one underscore may stand before each, without the
underscores. -/
def digitsOn (isDigit : Char → Bool) : List Char → List Char × List Char
  | '_' :: c :: rest =>
    if isDigit c then let (digits, rest) := digitsOn isDigit rest; (c :: digits, rest)
    else ([], '_' :: c :: rest)
  | c :: rest =>
    if isDigit c then let (digits, rest) := digitsOn isDigit rest; (c :: digits, rest)
    else ([], c :: rest)
  | [] => ([], [])

def readDigits (isDigit : Char → Bool) : List Char → Option (List Char × List Char)
  | c :: rest => if isDigit c then some (digitsOn isDigit (c :: rest)) else none
  | [] => none

/-- Reads an optional sign; the flag says whether it was a minus. -/
def readSign : List Char → Bool × List Char
  | '+' :: rest => (false, rest)
  | '-' :: rest => (true, rest)
  | rest => (false, rest)

/-- Reads the whole part of a decimal number, which has no leading zero. -/
def readWhole : List Char → Option (List Char × List Char)
  | '0' :: rest => some (['0'], rest)
  | text => readDigits Char.isDigit text

/-- An integer if it fits 64 bits. -/
def integerOf? (value : Int) : Option Data :=
  let bound := Int.ofNat (Nat.pow 2 63)
  if -bound ≤ value ∧ value < bound then some (.integer value) else none

/-- Reads an integer with the given base after its two leading characters. -/
def readBased (base : Nat) (text : List Char) : Option (Data × List Char) := do
  let isDigit (c : Char) : Bool := match Json.hexDigit? c with
    | some value => value < base
    | none => false
  let (digits, rest) ← readDigits isDigit text
  let value := digits.foldl (fun value c => base * value + (Json.hexDigit? c).getD 0) 0
  some (← integerOf? value, rest)

def readInteger : List Char → Option (Data × List Char)
  | '0' :: 'x' :: rest => readBased 16 rest
  | '0' :: 'o' :: rest => readBased 8 rest
  | '0' :: 'b' :: rest => readBased 2 rest
  | text => do
    let (negative, text) := readSign text
    let (digits, rest) ← readWhole text
    let value : Int := Decimal.digitsValue digits
    some (← integerOf? (if negative then -value else value), rest)

def readExponent : List Char → Option (Int × List Char)
  | 'e' :: rest | 'E' :: rest => do
    let (negative, rest) := readSign rest
    let (digits, rest) ← readDigits Char.isDigit rest
    let value : Int := Decimal.digitsValue digits
    some (if negative then -value else value, rest)
  | _ => none

/-- Reads a number with a fraction, an exponent or both. -/
def readFloat (text : List Char) : Option (Data × List Char) := do
  let (negative, signless) := readSign text
  let (whole, rest) ← readWhole signless
  let (fraction, exponent, rest) ← match rest with
    | '.' :: rest => do
      let (fraction, rest) ← readDigits Char.isDigit rest
      match readExponent rest with
      | some (exponent, rest) => some (fraction, exponent, rest)
      | none => some (fraction, 0, rest)
    | rest => do
      let (exponent, rest) ← readExponent rest
      some ([], exponent, rest)
  let literal := String.ofList (text.take (text.length - rest.length))
  if !negative && (Decimal.ofParts whole fraction exponent).overflows then none
  some (.real literal, rest)

/-- Reads the infinities and the value that is no number. -/
def readSpecial (text : List Char) : Option (Data × List Char) :=
  match (readSign text).2 with
  | 'i' :: 'n' :: 'f' :: rest => some (.real "inf", rest)
  | 'n' :: 'a' :: 'n' :: rest => some (.real "nan", rest)
  | _ => none

/-! ## Dates and times -/

/-- Reads a number of exactly `count` digits. -/
def readFixed (count : Nat) (text : List Char) : Option (Nat × List Char) :=
  let digits := text.take count
  if digits.length == count && digits.all Char.isDigit then
    some (Decimal.digitsValue digits, text.drop count)
  else none

def expect (c : Char) : List Char → Option (List Char)
  | d :: rest => if c == d then some rest else none
  | [] => none

def skipDate (text : List Char) : Option (List Char) := do
  let (year, text) ← readFixed 4 text
  let (month, text) ← readFixed 2 (← expect '-' text)
  let (day, text) ← readFixed 2 (← expect '-' text)
  if (Date.mk year month day).isValid then some text else none

/-- Reads past a time of day, with a fraction of the second if there is one. -/
def skipTime (text : List Char) : Option (List Char) := do
  let (hour, text) ← readFixed 2 text
  let (minute, text) ← readFixed 2 (← expect ':' text)
  let (second, text) ← readFixed 2 (← expect ':' text)
  if hour < 24 ∧ minute < 60 ∧ second ≤ 60 then
    match text with
    | '.' :: rest =>
      let digits := rest.takeWhile Char.isDigit
      if digits.isEmpty then some text else some (rest.drop digits.length)
    | _ => some text
  else none

def skipOffset : List Char → Option (List Char)
  | 'Z' :: rest | 'z' :: rest => some rest
  | '+' :: rest | '-' :: rest => do
    let (hour, rest) ← readFixed 2 rest
    let (minute, rest) ← readFixed 2 (← expect ':' rest)
    if hour < 24 ∧ minute < 60 then some rest else none
  | _ => none

/-- Reads past a date, a time or both. -/
def skipDateTime (text : List Char) : Option (List Char) :=
  match skipDate text with
  | some afterDate =>
    let afterTime := match afterDate with
      | 'T' :: rest | 't' :: rest | ' ' :: rest => skipTime rest
      | _ => none
    match afterTime with
    | some rest => some ((skipOffset rest).getD rest)
    | none => some afterDate
  | none => skipTime text

/-- Reads a date, a time or both. -/
def readDateTime (text : List Char) : Option (Data × List Char) := do
  let rest ← skipDateTime text
  let literal := String.ofList (text.take (text.length - rest.length))
  some (.ofFields [("date-time", .ofString literal)], rest)

/-- Reads a date or a number of any kind. -/
def readNumber (text : List Char) : Option (Data × List Char) :=
  (readDateTime text).orElse fun _ => (readFloat text).orElse fun _ =>
    (readSpecial text).orElse fun _ => readInteger text

end Marginalia.Toml
