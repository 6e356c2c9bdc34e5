import Marginalia.Failure
import Marginalia.Pattern.Basic

/-! # Comment rules

How the comments of a language are found on a line: patterns of five kinds, tried in the order
of the kinds, and markers for a quick look.
-/

namespace Marginalia

/-- The kinds of comment rules, in the order in which they are tried. -/
inductive RuleKind
  /-- The whole line is a comment. -/
  | singleLine
  /-- A block comment opens and closes on the line. -/
  | inlineBlock
  /-- The line opens a block comment that goes on below. -/
  | blockStart
  /-- The line lies inside a block comment. -/
  | blockMiddle
  /-- The line closes a block comment. -/
  | blockEnd
  deriving DecidableEq, Repr

namespace RuleKind

def all : List RuleKind := [singleLine, inlineBlock, blockStart, blockMiddle, blockEnd]

/-- The place of a kind in the order. -/
def rank : RuleKind → Nat
  | singleLine => 0
  | inlineBlock => 1
  | blockStart => 2
  | blockMiddle => 3
  | blockEnd => 4

theorem mem_all (kind : RuleKind) : kind ∈ all := by cases kind <;> decide

end RuleKind

/-- A rule: a pattern whose first three groups are the opening, the body and the closing of a
comment. -/
structure Rule where
  kind : RuleKind
  pattern : Pattern
  deriving DecidableEq, Repr

/-- The pattern of a rule needs groups for the opening and the body at least. -/
def Rule.compile [Pattern.Compiler] (kind : RuleKind) (source : String) : Except Failure Rule :=
  match Pattern.Compiler.compile? source with
  | none => .error .pattern
  | some pattern =>
    if pattern.groups < 2 then .error (.table (.missingGroups source)) else .ok ⟨kind, pattern⟩

/-- The comment rules of a language. -/
structure RuleSet where
  /-- The rules in the order in which they are tried. -/
  rules : List Rule := []
  /-- The token that closes a block comment. -/
  blockClose : Option String := none
  /-- What a line may begin with to look like a comment. -/
  lineMarkers : List String := []
  /-- What a line may end with to look like a comment. -/
  trailingMarkers : List String := []
  deriving DecidableEq, Repr

def RuleSet.ofKind (set : RuleSet) (kind : RuleKind) : List Rule :=
  set.rules.filter (·.kind == kind)

end Marginalia
