import Marginalia.Text.Lowercase

/-! # Simple case folding

Two characters agree up to case when their simple foldings are equal. The folding is the
lowercase form, save for a few small letters with a second shape, which fold to the first.
-/

namespace Marginalia.Text

/-- Small letters that fold to another small letter. -/
def foldedVariants : List (Nat × Nat) := [
  (0xb5, 0x3bc), (0x17f, 0x73), (0x345, 0x3b9), (0x3c2, 0x3c3), (0x3d0, 0x3b2), (0x3d1, 0x3b8),
  (0x3d5, 0x3c6), (0x3d6, 0x3c0), (0x3f0, 0x3ba), (0x3f1, 0x3c1), (0x3f5, 0x3b5),
  (0x1c80, 0x432), (0x1c81, 0x434), (0x1c82, 0x43e), (0x1c83, 0x441), (0x1c84, 0x442),
  (0x1c85, 0x442), (0x1c86, 0x44a), (0x1c87, 0x463), (0x1c88, 0xa64b), (0x1e9b, 0x1e61),
  (0x1fbe, 0x3b9), (0x1fd3, 0x390), (0x1fe3, 0x3b0), (0xfb05, 0xfb06)]

/-- The simple case folding of a code point. -/
def foldPoint (point : Nat) : Nat :=
  match foldedVariants.lookup point with
  | some folded => folded
  | none =>
    match caseRuns.find? (·.covers point) with
    | some run => run.lower point
    | none => point

/-- The characters that agree with `c` up to case, `c` among them. -/
def caseVariants (c : Char) : List Char :=
  let folded := foldPoint c.toNat
  let capitals := caseRuns.filterMap (·.capital? folded)
  let variants := foldedVariants.filterMap fun (variant, target) =>
    if target == folded then some variant else none
  c :: (folded :: capitals ++ variants).map Char.ofNat

end Marginalia.Text
