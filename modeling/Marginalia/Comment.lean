import Marginalia.Language.Registry

/-! # Comments on a line

A comment splits a line into its opening, its body and its closing. The first rule that
matches decides; rules for the end of a block count only when the line has the closing token.
-/

namespace Marginalia

structure Comment where
  opening : String
  body : String
  closing : String
  deriving DecidableEq, Repr

namespace Comment

/-- The line with another body in the place of the comment's own. -/
def withBody (comment : Comment) (body : String) : String :=
  comment.opening ++ body ++ comment.closing

/-- Whether the body has a letter or a number, so that there is something to translate. -/
def isTranslatable (comment : Comment) : Bool := comment.body.toList.any Text.isAlphanumeric

end Comment

/-- The comment that a rule finds on a line. -/
def Rule.extract? (rule : Rule) (line : String) : Option Comment :=
  (rule.pattern.captures? line.toList).map fun group =>
    ⟨String.ofList (group 1), String.ofList (group 2), String.ofList (group 3)⟩

namespace RuleSet

def closesOn (set : RuleSet) (line : String) : Bool :=
  set.blockClose.any (Text.contains line)

/-- The rules that are tried on the line. -/
def rulesFor (set : RuleSet) (line : String) : List Rule :=
  set.rules.filter fun rule => rule.kind != .blockEnd || set.closesOn line

/-- The comment that the first matching rule finds on a line. -/
def extract? (set : RuleSet) (line : String) : Option Comment :=
  (set.rulesFor line).findSome? (·.extract? line)

end RuleSet

namespace Registry

def extract? (registry : Registry) (line id : String) : Option Comment :=
  (registry.ruleSet id).extract? line

/-- Whether a line looks like a comment: a quick test by markers alone. -/
def looksLikeComment (registry : Registry) (line id : String) : Bool :=
  let trimmed := Text.trim line
  let set := registry.ruleSet id
  registry.commonMarkers.any (Text.startsWith trimmed) ||
    registry.commonContains.any (Text.contains trimmed) ||
    set.lineMarkers.any (Text.startsWith trimmed) ||
    set.trailingMarkers.any (Text.endsWith trimmed)

/-- The comments of a document that have something to translate, with the indices of their
lines. -/
def comments (registry : Registry) (lines : List String) (id : String) :
    List (Nat × Comment) :=
  lines.zipIdx.filterMap fun (line, index) =>
    match registry.extract? line id with
    | some comment => if comment.isTranslatable then some (index, comment) else none
    | none => none

end Registry

end Marginalia
