import Marginalia.Language.Table
import Marginalia.Path

/-! # The registry of languages

A registry maps ids to rule sets and file extensions to ids. Tables are merged into it whole or
not at all: every declaration is resolved, against the earlier declarations of the same table
first and then against the registry, before any of them counts. What compiles the patterns of a
table is left open.
-/

namespace Marginalia

/-- The known languages. Later entries of both lists stand first, so that the first entry with
a key counts. -/
structure Registry where
  sets : List (String × RuleSet) := []
  extensions : List (String × String) := []
  /-- The language that stands in for unknown ones, or the empty text. -/
  fallback : String := ""
  commonMarkers : List String := []
  commonContains : List String := []
  deriving DecidableEq, Repr

namespace Registry

def find? (registry : Registry) (id : String) : Option RuleSet := registry.sets.lookup id

def contains (registry : Registry) (id : String) : Bool := (registry.find? id).isSome

/-- The rule set that lines of a language are judged by: its own, or else that of the fallback
language. -/
def ruleSet (registry : Registry) (id : String) : RuleSet :=
  ((registry.find? id).or (registry.find? registry.fallback)).getD { }

/-- The registered ids in alphabetical order. -/
def ids (registry : Registry) : List String :=
  (registry.sets.map Prod.fst).eraseDups.mergeSort (fun first second => decide (first ≤ second))

/-- How extensions are compared: without the points in front and in lowercase. -/
def extensionKey (extension : String) : String :=
  Text.lower (String.ofList (extension.toList.dropWhile (· == '.')))

/-- The language of a path, judged by its extension. -/
def languageOf? (registry : Registry) (path : String) : Option String :=
  (Path.extension? path).bind fun extension => registry.extensions.lookup (Text.lower extension)

/-- The declarations of a table that were resolved, the later ones first. -/
structure Staged where
  sets : List (String × RuleSet) := []
  extensions : List (String × String) := []

/-- The rule set of a parent: of an earlier declaration of the table, or of the registry. -/
def Staged.parent (staged : Staged) (registry : Registry) (language : String) :
    Option String → Except Failure RuleSet
  | none => .ok { }
  | some parent =>
    match (staged.sets.lookup parent).or (registry.find? parent) with
    | some set => .ok set
    | none => .error (.table (.unknownParent language parent))

variable [Pattern.Compiler]

/-- Resolves one more declaration. -/
def Staged.add (registry : Registry) (staged : Staged) (decl : LanguageDecl) :
    Except Failure Staged :=
  match decl.ids with
  | [] => .error (.table .missingIds)
  | main :: _ => do
    let set ← decl.resolve (← staged.parent registry main decl.parent)
    return {
      sets := (decl.ids.map (·, set)).reverse ++ staged.sets
      extensions :=
        (decl.extensions.map (extensionKey ·, main)).reverse ++ staged.extensions }

/-- Merges a table. A declaration with a registered id replaces it; the common markers add up. -/
def merge (registry : Registry) (table : LanguageTable) : Except Failure Registry := do
  let staged ← table.languages.foldlM (Staged.add registry) ({ } : Staged)
  let merged : Registry := {
    sets := staged.sets ++ registry.sets
    extensions := staged.extensions ++ registry.extensions
    fallback := table.fallback.getD registry.fallback
    commonMarkers := registry.commonMarkers ++ table.commonMarkers
    commonContains := registry.commonContains ++ table.commonContains }
  if merged.fallback != "" && !merged.contains merged.fallback then
    throw (.table (.undefinedFallback merged.fallback))
  return merged

def mergeText (registry : Registry) (source : String) : Except Failure Registry :=
  match LanguageTable.parse? source with
  | some table => registry.merge table
  | none => .error .toml

/-- The registry of one table, which has to name a fallback language. -/
def ofTable (table : LanguageTable) : Except Failure Registry := do
  let registry ← ({ } : Registry).merge table
  if registry.fallback == "" then throw (.table .missingFallback)
  return registry

def ofText (source : String) : Except Failure Registry :=
  match LanguageTable.parse? source with
  | some table => ofTable table
  | none => .error .toml

end Registry

end Marginalia
