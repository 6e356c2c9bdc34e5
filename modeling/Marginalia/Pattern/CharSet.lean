import Marginalia.Text.Alphanumeric
import Marginalia.Text.Blank
import Marginalia.Text.CaseFold

/-! # Sets of characters in patterns

The sets that a pattern can ask a character to be in. They are kept as they were written, as
an expression, and membership is decided character by character.
-/

namespace Marginalia

/-- A set of characters, as a class or an escape of a pattern describes it. -/
inductive CharSet
  | none
  | all
  /-- The characters from `first` to `last`, both included. -/
  | range (first last : Char)
  /-- The white space of Unicode, written `\s`. -/
  | blank
  /-- The decimal digits of every script, written `\d`. -/
  | digit
  /-- The word characters of every script, written `\w`. -/
  | word
  /-- The characters that agree up to case with a member. -/
  | anyCase (set : CharSet)
  | complement (set : CharSet)
  | union (first second : CharSet)
  | inter (first second : CharSet)
  | diff (first second : CharSet)
  deriving DecidableEq, Repr

namespace CharSet

def single (c : Char) : CharSet := range c c

def contains : CharSet → Char → Bool
  | none, _ => false
  | all, _ => true
  | range first last, c => first ≤ c && c ≤ last
  | blank, c => Text.isBlank c
  | digit, c => Text.isDecimalDigit c
  | word, c => Text.isWord c
  | anyCase set, c => (Text.caseVariants c).any set.contains
  | complement set, c => !set.contains c
  | union first second, c => first.contains c || second.contains c
  | inter first second, c => first.contains c && second.contains c
  | diff first second, c => first.contains c && !second.contains c

@[simp] theorem contains_single (c d : Char) : (single c).contains d = (d == c) := by
  rw [Bool.eq_iff_iff]
  simp only [single, contains, Bool.and_eq_true, decide_eq_true_eq, beq_iff_eq]
  exact ⟨fun h => Char.le_antisymm h.2 h.1, fun h => h ▸ ⟨Char.le_refl _, Char.le_refl _⟩⟩

@[simp] theorem contains_complement (set : CharSet) (c : Char) :
    (complement set).contains c = !set.contains c := rfl

@[simp] theorem contains_blank (c : Char) : blank.contains c = Text.isBlank c := rfl

end CharSet

end Marginalia
