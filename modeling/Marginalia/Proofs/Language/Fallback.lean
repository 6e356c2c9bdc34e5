import Marginalia.Proofs.Comment.Cover
import Marginalia.Startup

/-! # The language that stands in for unknown ones

A registry is loaded from a table and extended by others, and a table that is refused changes
nothing. The fallback language is registered all the way as long as no table names the empty text
for it. An empty name passes for no name when tables are merged, so it takes the place of the
language that was there, and then lines of unknown languages have no comments at all.
-/

namespace Marginalia.Registry

/-- What a registry is extended by: the text of a table, or a file that has one. -/
inductive Extension
  | text (source : String)
  | file (tree : FileTree) (path : String)

namespace Extension

def table? : Extension → Option LanguageTable
  | text source => LanguageTable.parse? source
  | file tree path => (tree.readText path).toOption.bind LanguageTable.parse?

/-- The fallback language that the table names. -/
def fallback? (extension : Extension) : Option String := extension.table?.bind (·.fallback)

end Extension

/-- Whether the fallback language is registered, if there is one. -/
def HasFallback (registry : Registry) : Prop :=
  registry.fallback = "" ∨ registry.contains registry.fallback = true

/-- An unknown language is judged by the rule set of the fallback language, or by none. -/
theorem ruleSet_of_not_contains {registry : Registry} {id : String}
    (h : registry.contains id = false) :
    registry.ruleSet id = (registry.find? registry.fallback).getD { } := by
  rw [contains, Option.isSome_eq_false_iff, Option.isNone_iff_eq_none] at h
  rw [ruleSet, h, Option.none_or]

theorem ruleSet_of_find? {registry : Registry} {id : String} {set : RuleSet}
    (h : registry.find? id = some set) :
    registry.ruleSet id = set := by
  rw [ruleSet, h, Option.some_or, Option.getD_some]

section

variable [Pattern.Compiler]

def mergeExtension (registry : Registry) : Extension → Except Failure Registry
  | .text source => registry.mergeText source
  | .file tree path => registry.mergeFile tree path

/-- The registry after an extension, which leaves it as it is when it fails. -/
def extend (registry : Registry) (extension : Extension) : Registry :=
  match registry.mergeExtension extension with
  | .ok later => later
  | .error _ => registry

def extendAll (registry : Registry) (extensions : List Extension) : Registry :=
  extensions.foldl extend registry

/-- Whether the registry was loaded from a table. -/
def IsLoaded (registry : Registry) : Prop :=
  builtin = .ok registry ∨ ∃ source, ofText source = .ok registry

variable {registry later : Registry} {table : LanguageTable} {extension : Extension}

/-! ## Merging -/

/-- The registry with a table whose declarations were resolved. -/
def withStaged (registry : Registry) (staged : Staged) (table : LanguageTable) : Registry where
  sets := staged.sets ++ registry.sets
  extensions := staged.extensions ++ registry.extensions
  fallback := table.fallback.getD registry.fallback
  commonMarkers := registry.commonMarkers ++ table.commonMarkers
  commonContains := registry.commonContains ++ table.commonContains

/-- A table is merged when all its declarations can be resolved and the fallback language is
registered then, if there is one. -/
theorem merge_eq_ok_iff :
    registry.merge table = .ok later ↔ ∃ staged : Staged,
      table.languages.foldlM (Staged.add registry) { } = .ok staged ∧
        later = registry.withStaged staged table ∧ later.HasFallback := by
  unfold merge
  cases hstaged : table.languages.foldlM (Staged.add registry) ({ } : Staged) with
  | error failure =>
      constructor
      · intro h
        cases h
      · rintro ⟨_, hstaged', -⟩
        cases hstaged'
  | ok staged =>
      change (if _ then _ else _) = _ ↔ _
      simp only [Except.ok.injEq, exists_eq_left', Bool.and_eq_true, bne_iff_ne,
        Bool.not_eq_true']
      split
      next hundefined =>
        constructor
        · intro h
          cases h
        · rintro ⟨rfl, hempty | hcontains⟩
          · exact absurd hempty hundefined.1
          · exact absurd hcontains (Bool.eq_false_iff.mp hundefined.2)
      next hdefined =>
        rw [not_and_or, not_not, Bool.not_eq_false] at hdefined
        constructor
        · rintro ⟨rfl⟩
          exact ⟨rfl, hdefined⟩
        · rintro ⟨rfl, -⟩
          rfl

theorem hasFallback_of_merge (h : registry.merge table = .ok later) : later.HasFallback := by
  obtain ⟨_, -, -, hfallback⟩ := merge_eq_ok_iff.mp h
  exact hfallback

theorem fallback_of_merge (h : registry.merge table = .ok later) :
    later.fallback = table.fallback.getD registry.fallback := by
  obtain ⟨_, -, rfl, -⟩ := merge_eq_ok_iff.mp h
  rfl

theorem merge_of_mergeText {source : String} (h : registry.mergeText source = .ok later) :
    ∃ table, LanguageTable.parse? source = some table ∧ registry.merge table = .ok later := by
  unfold mergeText at h
  split at h
  next table htable => exact ⟨table, htable, h⟩
  next => cases h

theorem merge_of_mergeExtension (h : registry.mergeExtension extension = .ok later) :
    ∃ table, extension.table? = some table ∧ registry.merge table = .ok later := by
  cases extension with
  | text source => exact merge_of_mergeText h
  | file tree path =>
      simp only [mergeExtension, mergeFile] at h
      split at h
      next source hread =>
        simp only [Extension.table?, hread]
        exact merge_of_mergeText h
      next => cases h

/-- An extension merges its table, or changes nothing. -/
theorem extend_cases (registry : Registry) (extension : Extension) :
    registry.extend extension = registry ∨ ∃ table, extension.table? = some table ∧
      registry.merge table = .ok (registry.extend extension) := by
  unfold extend
  split
  next later h => exact Or.inr (merge_of_mergeExtension h)
  next => exact Or.inl rfl

/-! ## The fallback language -/

theorem IsLoaded.exists_ofTable (h : registry.IsLoaded) :
    ∃ table, ofTable table = .ok registry := by
  rcases h with hbuiltin | ⟨source, htext⟩
  · exact ⟨builtinTable, hbuiltin⟩
  · unfold ofText at htext
    split at htext
    next table _ => exact ⟨table, htext⟩
    next => cases htext

theorem merge_of_ofTable (h : ofTable table = .ok registry) :
    ({ } : Registry).merge table = .ok registry ∧ registry.fallback ≠ "" := by
  unfold ofTable at h
  cases hmerge : ({ } : Registry).merge table with
  | error failure =>
      rw [hmerge] at h
      cases h
  | ok merged =>
      rw [hmerge] at h
      change (if _ then _ else _) = _ at h
      split at h
      next => cases h
      next hne =>
        cases h
        exact ⟨rfl, by simpa using hne⟩

theorem fallback_of_ofTable (h : ofTable table = .ok registry) :
    registry.fallback ≠ "" ∧ registry.HasFallback := by
  obtain ⟨hmerge, hne⟩ := merge_of_ofTable h
  exact ⟨hne, hasFallback_of_merge hmerge⟩

theorem hasFallback_extend (h : registry.HasFallback) (extension : Extension) :
    (registry.extend extension).HasFallback := by
  rcases registry.extend_cases extension with heq | ⟨table, -, hmerge⟩
  · rw [heq]
    exact h
  · exact hasFallback_of_merge hmerge

/-- Only a table that names the empty text takes the fallback language away. -/
theorem fallback_extend_ne (h : registry.fallback ≠ "") (hnamed : extension.fallback? ≠ some "") :
    (registry.extend extension).fallback ≠ "" := by
  rcases registry.extend_cases extension with heq | ⟨table, htable, hmerge⟩
  · rw [heq]
    exact h
  · rw [fallback_of_merge hmerge]
    rw [Extension.fallback?, htable, Option.bind_some] at hnamed
    cases hfallback : table.fallback with
    | none => exact h
    | some named =>
        rw [hfallback] at hnamed
        exact fun heq => hnamed (congrArg some heq)

theorem hasFallback_extendAll (h : registry.HasFallback) (extensions : List Extension) :
    (registry.extendAll extensions).HasFallback := by
  induction extensions generalizing registry with
  | nil => exact h
  | cons extension extensions ih => exact ih (hasFallback_extend h extension)

theorem fallback_extendAll_ne {extensions : List Extension} (h : registry.fallback ≠ "")
    (hnamed : ∀ extension ∈ extensions, extension.fallback? ≠ some "") :
    (registry.extendAll extensions).fallback ≠ "" := by
  induction extensions generalizing registry with
  | nil => exact h
  | cons extension extensions ih =>
      obtain ⟨hfirst, hrest⟩ := List.forall_mem_cons.mp hnamed
      exact ih (fallback_extend_ne h hfirst) hrest

/-- However a loaded registry is extended: its fallback language is registered unless it is the
empty text and this is no id, which takes a table that names the empty text. While it is
registered every unknown language has its rule set, so its lines have the comments that they have
in the fallback language; and otherwise an unknown language has no rules and its lines no
comments. -/
theorem contains_fallback_iff_of_loaded {start : Registry} (hstart : start.IsLoaded)
    (extensions : List Extension) :
    let registry := start.extendAll extensions
    (registry.contains registry.fallback = true ↔
      registry.fallback ≠ "" ∨ registry.contains "" = true) ∧
    ((∀ extension ∈ extensions, extension.fallback? ≠ some "") →
      registry.contains registry.fallback = true) ∧
    ∀ id, registry.contains id = false →
      (registry.contains registry.fallback = true →
        registry.find? registry.fallback = some (registry.ruleSet id) ∧
        ∀ line, registry.extract? line id = registry.extract? line registry.fallback ∧
          registry.looksLikeComment line id = registry.looksLikeComment line registry.fallback) ∧
      (registry.contains registry.fallback = false →
        registry.ruleSet id = { } ∧ ∀ line, registry.extract? line id = none) := by
  intro registry
  obtain ⟨table, htable⟩ := hstart.exists_ofTable
  obtain ⟨hnonempty, hfallback⟩ := fallback_of_ofTable htable
  have hreached : registry.HasFallback := hasFallback_extendAll hfallback extensions
  refine ⟨⟨fun hcontains => ?_, fun h => ?_⟩, fun hnamed => ?_, fun id hid => ?_⟩
  · by_cases hempty : registry.fallback = ""
    · exact Or.inr (hempty ▸ hcontains)
    · exact Or.inl hempty
  · rcases hreached with hempty | hcontains
    · rw [hempty]
      exact h.resolve_left (not_not.mpr hempty)
    · exact hcontains
  · exact hreached.resolve_left (fallback_extendAll_ne hnonempty hnamed)
  · have hset := ruleSet_of_not_contains hid
    constructor
    · intro hcontains
      obtain ⟨set, hfind⟩ := Option.isSome_iff_exists.mp hcontains
      rw [hfind, Option.getD_some] at hset
      have hsame : registry.ruleSet id = registry.ruleSet registry.fallback := by
        rw [hset, ruleSet_of_find? hfind]
      refine ⟨by rw [hset, hfind], fun line => ⟨?_, ?_⟩⟩
      · rw [extract?, extract?, hsame]
      · rw [looksLikeComment, looksLikeComment, hsame]
    · intro hcontains
      rw [contains, Option.isSome_eq_false_iff, Option.isNone_iff_eq_none] at hcontains
      rw [hcontains, Option.getD_none] at hset
      refine ⟨hset, fun line => ?_⟩
      rw [extract?, hset]
      rfl

end

/-- A table with one language, which is its fallback language. -/
def singleTable : String := "fallback='a'\n[[language]]\nids=['a']\nsingle_line=['^(--)(.+)$']\n"

/-- The fallback language is changed, and its rules are; in between, a table and a file fail. -/
def changes : List Extension := [
  .text "fallback='b'\n[[language]]\nids=['b']\nsingle_line=['^(;)(.+)$']\n",
  .text "fallback='c'\n",
  .file { } "missing.toml",
  .text "[[language]]\nids=['b']\nsingle_line=['^(%)(.+)$']\n"]

/-- Unknown languages follow the fallback language through all changes. -/
theorem contains_fallback_iff_of_loaded_changes :
    ∃ start, ofText singleTable = .ok start ∧
      let registry := start.extendAll changes
      registry.fallback = "b" ∧ registry.contains registry.fallback = true ∧
        ∀ line, registry.extract? line "unknown" = registry.extract? line "b" := by
  have hchecks : (ofText singleTable).toOption.any (fun start =>
      (start.extendAll changes).fallback == "b" &&
        !(start.extendAll changes).contains "unknown") = true := by decide +kernel
  cases hstart : ofText singleTable with
  | error failure =>
      rw [hstart] at hchecks
      cases hchecks
  | ok start =>
      rw [hstart] at hchecks
      simp only [Except.toOption, Option.any_some, Bool.and_eq_true, beq_iff_eq,
        Bool.not_eq_true'] at hchecks
      obtain ⟨hfallback, hunknown⟩ := hchecks
      obtain ⟨-, hregistered, hids⟩ :=
        contains_fallback_iff_of_loaded (Or.inr ⟨singleTable, hstart⟩) changes
      have hcontains := hregistered (by decide +kernel)
      refine ⟨start, rfl, hfallback, hcontains, fun line => ?_⟩
      have hsame := (((hids "unknown" hunknown).1 hcontains).2 line).1
      rwa [hfallback] at hsame

/-- A table that names the empty text leaves unknown languages without rules. -/
theorem exists_not_contains_fallback :
    ∃ start, builtin = .ok start ∧
      let registry := start.extendAll [.text "fallback = \"\"\n"]
      registry.contains registry.fallback = false ∧ registry.contains "cobol" = false ∧
        start.extract? "// note" "cobol" = some ⟨"// ", "note", ""⟩ ∧
        registry.extract? "// note" "cobol" = none := by
  obtain ⟨start, hbuiltin, hcheck⟩ := exists_builtin
    (fun start =>
      let registry := start.extendAll [.text "fallback = \"\"\n"]
      registry.contains registry.fallback = false ∧ registry.contains "cobol" = false ∧
        start.extract? "// note" "cobol" = some ⟨"// ", "note", ""⟩ ∧
        registry.extract? "// note" "cobol" = none) (by decide +kernel)
  exact ⟨start, hbuiltin, of_decide_eq_true hcheck⟩

end Marginalia.Registry
