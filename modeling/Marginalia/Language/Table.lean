import Marginalia.Data.Decode
import Marginalia.Language.Rule
import Marginalia.Toml.Parser

/-! # Tables of languages

A table declares languages. A declaration may name a parent, and what it leaves open for a
kind of rule, for the markers or for the closing token is taken over from the parent.
-/

namespace Marginalia

structure LanguageDecl where
  /-- The ids of the language; the first is its main one. -/
  ids : List String
  parent : Option String := none
  extensions : List String := []
  singleLine : List String := []
  inlineBlock : Option String := none
  blockStart : Option String := none
  blockMiddle : Option String := none
  blockEnd : Option String := none
  blockClose : Option String := none
  lineMarkers : List String := []
  trailingMarkers : List String := []
  deriving DecidableEq, Repr

structure LanguageTable where
  /-- The language that stands in for unknown ones. -/
  fallback : Option String := none
  /-- What a line of any language may begin with to look like a comment. -/
  commonMarkers : List String := []
  /-- What a line of any language may contain to look like a comment. -/
  commonContains : List String := []
  languages : List LanguageDecl := []
  deriving DecidableEq, Repr

namespace LanguageDecl

def patterns (decl : LanguageDecl) : RuleKind → List String
  | .singleLine => decl.singleLine
  | .inlineBlock => decl.inlineBlock.toList
  | .blockStart => decl.blockStart.toList
  | .blockMiddle => decl.blockMiddle.toList
  | .blockEnd => decl.blockEnd.toList

/-- The declared patterns with their kinds, in the order of the kinds. -/
def declared (decl : LanguageDecl) : List (RuleKind × String) :=
  RuleKind.all.flatMap fun kind => (decl.patterns kind).map (kind, ·)

/-- The own value of a list, or the parent's when the own one is empty. -/
def inherit {α : Type} (own inherited : List α) : List α :=
  if own.isEmpty then inherited else own

/-- The rule set of the declaration under the rule set of its parent, which is empty when
there is none. -/
def resolve [Pattern.Compiler] (decl : LanguageDecl) (parent : RuleSet) :
    Except Failure RuleSet := do
  let own ← decl.declared.mapM fun (kind, source) => Rule.compile kind source
  let rules := RuleKind.all.flatMap fun kind =>
    inherit (own.filter (·.kind == kind)) (parent.ofKind kind)
  let blockClose := decl.blockClose.or parent.blockClose
  if rules.any (·.kind == .blockEnd) && blockClose.isNone then
    throw (.table (.missingClose (decl.ids.headD "?")))
  return {
    rules
    blockClose
    lineMarkers := inherit decl.lineMarkers parent.lineMarkers
    trailingMarkers := inherit decl.trailingMarkers parent.trailingMarkers }

def ofData? (data : Data) : Option LanguageDecl := do
  let fields ← data.fields? .toml ["ids", "extends", "extensions", "single_line",
    "inline_block", "block_start", "block_middle", "block_end", "block_close", "line_markers",
    "trailing_markers"]
  return {
    ids := ← fields.required "ids" Data.asTexts?
    parent := ← fields.optional "extends" Data.asText?
    extensions := ← fields.orDefault "extensions" Data.asTexts? []
    singleLine := ← fields.orDefault "single_line" Data.asTexts? []
    inlineBlock := ← fields.optional "inline_block" Data.asText?
    blockStart := ← fields.optional "block_start" Data.asText?
    blockMiddle := ← fields.optional "block_middle" Data.asText?
    blockEnd := ← fields.optional "block_end" Data.asText?
    blockClose := ← fields.optional "block_close" Data.asText?
    lineMarkers := ← fields.orDefault "line_markers" Data.asTexts? []
    trailingMarkers := ← fields.orDefault "trailing_markers" Data.asTexts? [] }

end LanguageDecl

namespace LanguageTable

def ofData? (data : Data) : Option LanguageTable := do
  let fields ← data.fields? .toml ["fallback", "common_markers", "common_contains", "language"]
  let languages (value : Data) : Option (List LanguageDecl) := do
    (← value.asList?).mapM LanguageDecl.ofData?
  return {
    fallback := ← fields.optional "fallback" Data.asText?
    commonMarkers := ← fields.orDefault "common_markers" Data.asTexts? []
    commonContains := ← fields.orDefault "common_contains" Data.asTexts? []
    languages := ← fields.orDefault "language" languages [] }

def parse? (source : String) : Option LanguageTable := (Toml.parse? source).bind ofData?

end LanguageTable

end Marginalia
