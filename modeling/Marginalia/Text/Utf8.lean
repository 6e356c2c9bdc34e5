/-! # Reading UTF-8

Bytes are read strictly, where every sequence has to be well formed, or leniently, where each
longest beginning of a sequence that goes wrong becomes one replacement character.
-/

namespace Marginalia.Text

/-- The length of the sequence that a byte begins and the range of the byte after it. A byte
that begins no sequence gives `none`. -/
def sequenceOf? (first : Nat) : Option (Nat × Nat × Nat) :=
  if first < 0x80 then some (1, 0, 0)
  else if first < 0xc2 then none
  else if first < 0xe0 then some (2, 0x80, 0xbf)
  else if first == 0xe0 then some (3, 0xa0, 0xbf)
  else if first == 0xed then some (3, 0x80, 0x9f)
  else if first < 0xf0 then some (3, 0x80, 0xbf)
  else if first == 0xf0 then some (4, 0x90, 0xbf)
  else if first < 0xf4 then some (4, 0x80, 0xbf)
  else if first == 0xf4 then some (4, 0x80, 0x8f)
  else none

/-- The bytes at the front that go on with a sequence: at most `count`, the first of them
within the bounds. -/
def continuation (low high : Nat) : Nat → List UInt8 → List UInt8
  | 0, _ => []
  | _, [] => []
  | count + 1, byte :: bytes =>
    if low ≤ byte.toNat && byte.toNat ≤ high then
      byte :: continuation 0x80 0xbf count bytes
    else []

/-- The code point of a sequence of the given length. -/
def codePoint (length first : Nat) (others : List UInt8) : Nat :=
  let leading := match length with
    | 1 => first
    | 2 => first % 0x20
    | 3 => first % 0x10
    | _ => first % 0x08
  others.foldl (fun value byte => 64 * value + byte.toNat % 64) leading

/-- Reads what the bytes begin with: a character, or `none` for a beginning that goes wrong,
and the number of bytes it takes. -/
def readSequence (first : UInt8) (bytes : List UInt8) : Option Char × Nat :=
  match sequenceOf? first.toNat with
  | none => (none, 1)
  | some (length, low, high) =>
    let others := continuation low high (length - 1) bytes
    if others.length == length - 1 then
      (some (Char.ofNat (codePoint length first.toNat others)), length)
    else (none, 1 + others.length)

/-- Reads the characters of the bytes, `none` for each beginning that goes wrong. The first
argument counts the bytes that are already read. -/
def sequences (skip : Nat) : List UInt8 → List (Option Char)
  | [] => []
  | byte :: bytes =>
    match skip with
    | skip + 1 => sequences skip bytes
    | 0 =>
      let (char, length) := readSequence byte bytes
      char :: sequences (length - 1) bytes

/-- The text of well-formed bytes. -/
def decode? (bytes : List UInt8) : Option String :=
  ((sequences 0 bytes).mapM id).map String.ofList

/-- The text of any bytes, with replacement characters and without a byte order mark. -/
def decodeLossy (bytes : List UInt8) : String :=
  let chars := (sequences 0 bytes).map (·.getD '\ufffd')
  String.ofList (match chars with
    | '\ufeff' :: rest => rest
    | _ => chars)

end Marginalia.Text
