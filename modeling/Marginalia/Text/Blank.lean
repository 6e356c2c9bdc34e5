/-! # Blank characters and trimming

A character is blank when Unicode gives it the property `White_Space`; trimming removes the
blank characters at the ends of a text. The scanning functions work on lists of characters,
and the functions on `String` wrap them.
-/

namespace Marginalia.Text

/-- A blank character is one of the 25 characters with the property `White_Space`. -/
def isBlank (c : Char) : Bool :=
  ('\t' ≤ c && c ≤ '\r') || c == ' ' || c == '\u0085' || c == '\u00a0' || c == '\u1680' ||
    ('\u2000' ≤ c && c ≤ '\u200a') || c == '\u2028' || c == '\u2029' || c == '\u202f' ||
    c == '\u205f' || c == '\u3000'

/-- Removes the blank characters at the front. -/
def dropBlanks (text : List Char) : List Char := text.dropWhile isBlank

/-- Removes the blank characters at the back. -/
def dropBlanksEnd (text : List Char) : List Char := (dropBlanks text.reverse).reverse

/-- Removes the blank characters at both ends. -/
def trimList (text : List Char) : List Char := dropBlanksEnd (dropBlanks text)

def trim (text : String) : String := String.ofList (trimList text.toList)

/-- Whether the characters of `needle` stand next to each other, in order, in the text. -/
def occursIn (needle : List Char) : List Char → Bool
  | [] => needle.isEmpty
  | c :: rest => needle.isPrefixOf (c :: rest) || occursIn needle rest

def startsWith (text head : String) : Bool := head.toList.isPrefixOf text.toList

def endsWith (text tail : String) : Bool := tail.toList.isSuffixOf text.toList

def contains (text part : String) : Bool := occursIn part.toList text.toList

theorem dropBlanks_of_not_blank (c : Char) (rest : List Char) (h : isBlank c = false) :
    dropBlanks (c :: rest) = c :: rest := by
  simp [dropBlanks, h]

/-- Dropping the blanks in front takes away nothing but blanks. -/
theorem takeWhile_append_dropBlanks (text : List Char) :
    text.takeWhile isBlank ++ dropBlanks text = text :=
  List.takeWhile_append_dropWhile

end Marginalia.Text
