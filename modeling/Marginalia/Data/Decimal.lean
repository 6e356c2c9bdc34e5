/-! # Decimal numbers beyond the range of doubles

A number with a fraction or an exponent is only ever checked for its size: whether the double
nearest to it is finite.
-/

namespace Marginalia

/-- The number `significand * 10 ^ exponent`. -/
structure Decimal where
  significand : Nat
  exponent : Int

namespace Decimal

/-- The least number that rounds to infinity: half a step above the greatest finite double. -/
def overflowBound : Nat := Nat.pow 2 1024 - Nat.pow 2 970

/-- Whether the number rounds to infinity. Its count of digits before the point settles all
but the numbers near the bound, so that no great power is computed. -/
def overflows (number : Decimal) : Bool :=
  if number.significand == 0 then false
  else
    let digits := (Nat.toDigits 10 number.significand).length + number.exponent
    if 310 < digits then true
    else if digits < 300 then false
    else if 0 ≤ number.exponent then
      overflowBound ≤ number.significand * Nat.pow 10 number.exponent.toNat
    else
      overflowBound * Nat.pow 10 (-number.exponent).toNat ≤ number.significand

def digitsValue (digits : List Char) : Nat :=
  digits.foldl (fun value c => 10 * value + (c.toNat - '0'.toNat)) 0

/-- The number with the given digits before and after the point and the given exponent. -/
def ofParts (whole fraction : List Char) (exponent : Int) : Decimal :=
  ⟨digitsValue (whole ++ fraction), exponent - fraction.length⟩

end Decimal

end Marginalia
