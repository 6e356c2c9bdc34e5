import Marginalia.Calendar
import Marginalia.Text.Blank

/-! # Timestamps

Points in time in universal time, down to the nanosecond. They are written in the form of RFC
3339 and read with some freedom: blanks may stand around the parts, a space may stand for the
`T`, parts may be shorter, and years beyond four digits have a sign. The second 60 stands for a
leap second.
-/

namespace Marginalia

structure Timestamp where
  date : Date
  hour : Nat
  minute : Nat
  /-- The second of the minute, up to 60. -/
  second : Nat
  nanosecond : Nat
  deriving DecidableEq, Repr

namespace Timestamp

/-! ## Reading -/

/-- A reader of a part: its value and the text behind it. -/
abbrev Reader (α : Type) := List Char → Option (α × List Char)

/-- Reads a number of one to `most` digits after blanks. -/
def readNumber (most : Nat) : Reader Nat := fun text =>
  let text := Text.dropBlanks text
  let digits := (text.takeWhile Char.isDigit).take most
  if digits.isEmpty then none
  else
    some (digits.foldl (fun value c => 10 * value + (c.toNat - '0'.toNat)) 0,
      text.drop digits.length)

/-- Reads a year: up to four digits, or any number of digits behind a sign. -/
def readYear : Reader Int := fun text =>
  match Text.dropBlanks text with
  | '-' :: rest => digitsAfterSign rest (fun value => -value)
  | '+' :: rest => digitsAfterSign rest (fun value => value)
  | text => (readNumber 4 text).map fun (value, rest) => ((value : Int), rest)
where
  /-- Reads the digits right behind a sign. -/
  digitsAfterSign (text : List Char) (sign : Int → Int) : Option (Int × List Char) :=
    match text with
    | c :: _ =>
      if c.isDigit then (readNumber text.length text).map fun (value, rest) => (sign value, rest)
      else none
    | [] => none

/-- Reads a separator after blanks. -/
def readMark (mark : Char) (text : List Char) : Option (List Char) :=
  match Text.dropBlanks text with
  | c :: rest => if c == mark then some rest else none
  | [] => none

def readDate : Reader Date := fun text => do
  let (year, text) ← readYear text
  let (month, text) ← readNumber 2 (← readMark '-' text)
  let (day, text) ← readNumber 2 (← readMark '-' text)
  let date : Date := ⟨year, month, day⟩
  if date.isValid then some (date, text) else none

/-- Reads the fraction of a second in nanoseconds; digits beyond the ninth do not count. -/
def readFraction : Reader Nat := fun text =>
  match text with
  | '.' :: rest =>
    let digits := rest.takeWhile Char.isDigit
    if digits.isEmpty then none
    else
      let counted := digits.take 9
      let value := counted.foldl (fun value c => 10 * value + (c.toNat - '0'.toNat)) 0
      some (value * Nat.pow 10 (9 - counted.length), rest.drop digits.length)
  | _ => some (0, text)

/-- Reads the distance from universal time in minutes. -/
def readOffset : Reader Int := fun text =>
  match text with
  | 'Z' :: rest | 'z' :: rest => some (0, rest)
  | '+' :: rest => (readDistance rest).map fun (minutes, rest) => ((minutes : Int), rest)
  | '-' :: rest | '−' :: rest =>
    (readDistance rest).map fun (minutes, rest) => (-(minutes : Int), rest)
  | u :: t :: c :: rest =>
    if u.toUpper == 'U' && t.toUpper == 'T' && c.toUpper == 'C' then some (0, rest) else none
  | _ => none
where
  /-- Reads two digits. -/
  readPair : Reader Nat
    | a :: b :: rest =>
      if a.isDigit && b.isDigit then
        some (10 * (a.toNat - '0'.toNat) + (b.toNat - '0'.toNat), rest)
      else none
    | _ => none
  /-- Reads hours and minutes, with colons and blanks between them. -/
  readDistance : Reader Nat := fun text => do
    let (hours, text) ← readPair text
    let (minutes, text) ← readPair (text.dropWhile fun c => c == ':' || Text.isBlank c)
    if minutes < 60 && hours < 24 then some (60 * hours + minutes, text) else none

/-- The point in time with the given local date and time of day, where the local time is
`offset` minutes ahead. -/
def ofLocal (date : Date) (hour minute second nanosecond : Nat) (offset : Int) : Timestamp :=
  let total : Int := 60 * hour + minute - offset
  let date := if total < 0 then date.previous else if 1440 ≤ total then date.next else date
  let total := (total % 1440).toNat
  ⟨date, total / 60, total % 60, second, nanosecond⟩

/-- The years that timestamps can have. -/
def hasYearInRange (timestamp : Timestamp) : Bool :=
  -262143 ≤ timestamp.date.year && timestamp.date.year ≤ 262142

/-- The point in time that a text names. -/
def parse? (source : String) : Option Timestamp := do
  let (date, text) ← readDate source.toList
  let text ← match text with
    | 'T' :: text | 't' :: text | ' ' :: text => some text
    | _ => none
  let (hour, text) ← readNumber 2 text
  let (minute, text) ← readNumber 2 (← readMark ':' text)
  let (second, text) ← readNumber 2 (← readMark ':' text)
  let (nanosecond, text) ← readFraction text
  let (offset, text) ← readOffset (Text.dropBlanks text)
  let timestamp := ofLocal date hour minute second nanosecond offset
  if hour < 24 && minute < 60 && second ≤ 60 && timestamp.hasYearInRange &&
      (Text.dropBlanks text).isEmpty then
    some timestamp
  else none

/-! ## Writing -/

/-- A number with at least `width` digits. -/
def padded (width value : Nat) : String :=
  let digits := Nat.toDigits 10 value
  String.ofList (List.replicate (width - digits.length) '0' ++ digits)

/-- A year: four digits, or a sign and at least four digits. -/
def renderYear (year : Int) : String :=
  if year < 0 then "-" ++ padded 4 year.natAbs
  else if 9999 < year then "+" ++ padded 4 year.natAbs
  else padded 4 year.natAbs

/-- The fraction of a second, with three, six or nine digits, or nothing when it is zero. -/
def renderFraction (nanosecond : Nat) : String :=
  if nanosecond == 0 then ""
  else if nanosecond % 1000000 == 0 then "." ++ padded 3 (nanosecond / 1000000)
  else if nanosecond % 1000 == 0 then "." ++ padded 6 (nanosecond / 1000)
  else "." ++ padded 9 nanosecond

def render (timestamp : Timestamp) : String :=
  renderYear timestamp.date.year ++ "-" ++ padded 2 timestamp.date.month ++ "-" ++
    padded 2 timestamp.date.day ++ "T" ++ padded 2 timestamp.hour ++ ":" ++
    padded 2 timestamp.minute ++ ":" ++ padded 2 timestamp.second ++
    renderFraction timestamp.nanosecond ++ "Z"

end Timestamp

end Marginalia
