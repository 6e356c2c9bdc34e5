/-! # Sets of code points

A set of code points is written as the ascending list of the points at which membership
changes: the set begins at the first entry, ends before the second, begins again at the third,
and so on. This is the smallest form of the character tables that Unicode publishes.
-/

namespace Marginalia.Text

/-- The ascending list of the code points at which membership in a set changes. -/
abbrev CodePoints := List Nat

namespace CodePoints

/-- A point is in the set when an odd number of changes lies at or below it. -/
def mem (changes : CodePoints) (point : Nat) : Bool :=
  (changes.takeWhile (· ≤ point)).length % 2 == 1

def contains (changes : CodePoints) (c : Char) : Bool := mem changes c.toNat

end CodePoints

end Marginalia.Text
