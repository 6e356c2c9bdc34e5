import Marginalia.Proofs.Language.WellFormed

/-! # What a language takes over

A language goes back to a chain of declarations: its own one, the one of its parent as it stood
when the language was declared, and so on. For each kind of rule, for the markers and for the
closing token the first declaration of the chain that says something counts. The chain is fixed
with the declaration of the language, so what is declared for a parent later makes no difference.
-/

namespace Marginalia

/-! ## Chains of declarations -/

namespace LanguageDecl

/-- What the first declaration of a chain that says something says. -/
def nearest {α : Type} (own : LanguageDecl → List α) (chain : List LanguageDecl) : List α :=
  ((chain.map own).find? (!·.isEmpty)).getD []

/-- The chains of declarations that belong to a language: the first declaration lists the language,
and what is behind it belongs to the parent that the declaration names, if it names one. -/
inductive IsChainOf : String → List LanguageDecl → Prop
  | root {id : String} {decl : LanguageDecl} (hid : id ∈ decl.ids) (hparent : decl.parent = none) :
    IsChainOf id [decl]
  | child {id parent : String} {decl : LanguageDecl} {chain : List LanguageDecl}
    (hid : id ∈ decl.ids) (hparent : decl.parent = some parent) (h : IsChainOf parent chain) :
    IsChainOf id (decl :: chain)

/-- The chain of a language behind some declarations of a table, the last one of them first. The
last declaration that lists the language is its first link, and behind it is the chain of the parent
at that place; a language that none of them lists has the chain that it had before the table. -/
def chainBehind (earlier : String → List LanguageDecl) :
    List LanguageDecl → String → List LanguageDecl
  | [], id => earlier id
  | decl :: before, id =>
    if id ∈ decl.ids then decl :: decl.parent.elim [] (chainBehind earlier before)
    else chainBehind earlier before id

/-- The chain of a language when tables were merged one after the other. -/
def lineage (tables : List LanguageTable) : String → List LanguageDecl :=
  tables.foldl (fun earlier table => chainBehind earlier table.languages.reverse) fun _ => []

variable [Pattern.Compiler]

/-- Whether all patterns of a declaration are patterns with groups for an opening and a body. -/
def Compiles (decl : LanguageDecl) : Prop :=
  ∀ kind, ∀ source ∈ decl.patterns kind, ∃ rule, Rule.compile kind source = .ok rule

/-- The comment that the patterns of a chain find on a line. The kinds are tried in their order,
each with the patterns that the nearest declaration with any of the kind has, in the order in which
it has them; those for the end of a block count only on a line with the nearest closing token. -/
def extractBy? (chain : List LanguageDecl) (line : String) : Option Comment :=
  RuleKind.all.findSome? fun kind =>
    if kind = .blockEnd ∧ ¬ (chain.findSome? (·.blockClose)).any (Text.contains line) then none
    else (nearest (·.patterns kind) chain).findSome? fun source =>
      (Rule.compile kind source).toOption.bind (·.extract? line)

end LanguageDecl

open LanguageDecl (nearest IsChainOf chainBehind lineage extractBy?)

/-- Whether a rule set is what a chain of declarations comes to. -/
structure RuleSet.Resolves [Pattern.Compiler] (set : RuleSet) (chain : List LanguageDecl) :
    Prop where
  /-- The rules of a kind are the patterns of the nearest declaration that has any of the kind, in
  the order in which it has them. -/
  ofKind_eq : ∀ kind, (nearest (·.patterns kind) chain).mapM (Rule.compile kind) =
    .ok (set.ofKind kind)
  rules_eq : set.rules = RuleKind.all.flatMap set.ofKind
  blockClose_eq : set.blockClose = chain.findSome? (·.blockClose)
  lineMarkers_eq : set.lineMarkers = nearest (·.lineMarkers) chain
  trailingMarkers_eq : set.trailingMarkers = nearest (·.trailingMarkers) chain

namespace LanguageDecl

variable {α : Type} {own : LanguageDecl → List α} {decl : LanguageDecl}
  {chain declarations : List LanguageDecl} {earlier : String → List LanguageDecl} {id : String}
  {set : RuleSet}

/-! ## The chain of a language -/

theorem nearest_cons : nearest own (decl :: chain) = inherit (own decl) (nearest own chain) := by
  unfold nearest inherit
  rw [List.map_cons, List.find?_cons]
  cases (own decl).isEmpty <;> rfl

theorem mem_chainBehind {link : LanguageDecl} (h : link ∈ chainBehind earlier declarations id) :
    link ∈ declarations ∨ ∃ other, link ∈ earlier other := by
  induction declarations generalizing id with
  | nil => exact Or.inr ⟨id, h⟩
  | cons decl before ih =>
      rw [chainBehind] at h
      split at h
      next =>
        rcases List.mem_cons.mp h with rfl | h
        · exact Or.inl List.mem_cons_self
        · cases hparent : decl.parent with
          | none => simp [hparent] at h
          | some parent =>
              rw [hparent] at h
              exact (ih h).imp_left (List.mem_cons_of_mem _)
      next => exact (ih h).imp_left (List.mem_cons_of_mem _)

/-- Only declarations that list a language make a difference to its chain. -/
theorem chainBehind_of_not_listed (h : ∀ decl ∈ declarations, id ∉ decl.ids) :
    chainBehind earlier declarations id = earlier id := by
  induction declarations with
  | nil => rfl
  | cons decl before ih =>
      obtain ⟨hfirst, hbefore⟩ := List.forall_mem_cons.mp h
      rw [chainBehind, if_neg hfirst, ih hbefore]

theorem lineage_concat (tables : List LanguageTable) (table : LanguageTable) :
    lineage (tables ++ [table]) = chainBehind (lineage tables) table.languages.reverse := by
  rw [lineage, List.foldl_append]
  rfl

theorem lineage_append_of_not_listed {tables more : List LanguageTable}
    (h : ∀ table ∈ more, ∀ decl ∈ table.languages, id ∉ decl.ids) :
    lineage (tables ++ more) id = lineage tables id := by
  induction more using List.reverseRecOn with
  | nil => rw [List.append_nil]
  | append_singleton more table ih =>
      rw [List.forall_mem_append, List.forall_mem_singleton] at h
      rw [← List.append_assoc, lineage_concat, chainBehind_of_not_listed (by simpa using h.2)]
      exact ih h.1

/-! ## The rule set of a chain -/

section

variable [Pattern.Compiler]

theorem Compiles.mapM_eq (h : decl.Compiles) (kind : RuleKind) :
    (decl.patterns kind).mapM (Rule.compile kind) = .ok (decl.ownRules kind) :=
  mapM_eq_ok_iff.mpr ⟨h kind, rfl⟩

/-- A declaration with a pattern of a kind has a rule of the kind. -/
theorem Compiles.isEmpty_ownRules (h : decl.Compiles) (kind : RuleKind) :
    (decl.ownRules kind).isEmpty = (decl.patterns kind).isEmpty := by
  unfold ownRules
  cases hpatterns : decl.patterns kind with
  | nil => rfl
  | cons source sources =>
      obtain ⟨rule, hrule⟩ := h kind source (hpatterns ▸ List.mem_cons_self)
      rw [List.filterMap_cons_some (by rw [hrule]; rfl)]
      rfl

theorem IsSound.compiles_all {parent : RuleSet} (h : decl.IsSound parent) : decl.Compiles := by
  intro kind source hmem
  obtain ⟨pattern, hparse, hgroups⟩ := h.compiles kind source hmem
  exact ⟨_, Rule.compile_eq_ok_iff.mpr ⟨pattern, hparse, hgroups, rfl⟩⟩

/-- The step: one more declaration before a chain. -/
theorem resolves_under (h : decl.Compiles) (hset : set.Resolves chain) :
    (decl.under set).Resolves (decl :: chain) := by
  constructor
  case ofKind_eq =>
    intro kind
    rw [nearest_cons, ofKind_under, inherit, inherit, h.isEmpty_ownRules]
    split
    next => exact hset.ofKind_eq kind
    next => exact h.mapM_eq kind
  case rules_eq => exact (List.flatMap_congr fun _ _ => ofKind_under).symm
  case blockClose_eq =>
    rw [under, hset.blockClose_eq, List.findSome?_cons]
    cases decl.blockClose <;> rfl
  case lineMarkers_eq => rw [nearest_cons, ← hset.lineMarkers_eq, under]
  case trailingMarkers_eq => rw [nearest_cons, ← hset.trailingMarkers_eq, under]

theorem resolves_empty : ({ } : RuleSet).Resolves [] := by
  constructor <;> simp [nearest, RuleSet.ofKind, pure, Except.pure]

theorem resolves_foldr (h : ∀ decl ∈ chain, decl.Compiles) :
    (chain.foldr under { }).Resolves chain := by
  induction chain with
  | nil => exact resolves_empty
  | cons decl chain ih =>
      obtain ⟨hfirst, hrest⟩ := List.forall_mem_cons.mp h
      exact resolves_under hfirst (ih hrest)

/-- The rule set that a chain comes to; without a declaration there is none. -/
def setOf? : List LanguageDecl → Option RuleSet
  | [] => none
  | decl :: chain => some (decl.under (chain.foldr under { }))

theorem getD_setOf? : (setOf? chain).getD { } = chain.foldr under { } := by cases chain <;> rfl

theorem isSome_setOf?_iff : (setOf? chain).isSome = true ↔ chain ≠ [] := by
  cases chain <;> simp [setOf?]

theorem setOf?_eq_some_iff :
    setOf? chain = some set ↔ chain ≠ [] ∧ set = chain.foldr under { } := by
  cases chain <;> simp [setOf?, eq_comm]

end

end LanguageDecl

/-! ## Lines under a chain -/

/-- Of the rules of a kind all are tried on a line, or none when they are for the end of a block and
the line does not close one. -/
theorem RuleSet.filter_ofKind (set : RuleSet) (line : String) (kind : RuleKind) :
    (set.ofKind kind).filter (fun rule => rule.kind != .blockEnd || set.closesOn line) =
      if kind = .blockEnd ∧ ¬ set.closesOn line = true then [] else set.ofKind kind := by
  have hkind : ∀ rule ∈ set.ofKind kind, rule.kind = kind := fun rule hmem =>
    beq_iff_eq.mp (List.mem_filter.mp hmem).2
  split
  next hopen =>
    refine List.filter_eq_nil_iff.mpr fun rule hmem => ?_
    simp [hkind rule hmem, hopen]
  next hclosed =>
    refine List.filter_eq_self.mpr fun rule hmem => ?_
    rw [hkind rule hmem]
    by_cases hend : kind = .blockEnd
    · simpa [hend] using hclosed
    · simp [hend]

theorem RuleSet.Resolves.extract?_eq [Pattern.Compiler] {set : RuleSet} {chain : List LanguageDecl}
    (h : set.Resolves chain) (line : String) : set.extract? line = extractBy? chain line := by
  rw [RuleSet.extract?, rulesFor, h.rules_eq, List.filter_flatMap, ← List.head?_filterMap,
    List.filterMap_flatMap, List.head?_flatMap, extractBy?]
  congr 1
  funext kind
  obtain ⟨-, hrules⟩ := mapM_eq_ok_iff.mp (h.ofKind_eq kind)
  rw [filter_ofKind, closesOn, h.blockClose_eq, hrules]
  split
  next => rfl
  next => rw [List.filterMap_filterMap, List.head?_filterMap]

namespace Registry

section

variable [Pattern.Compiler] {registry later start : Registry} {table first : LanguageTable}
  {tables : List LanguageTable} {declarations : List LanguageDecl}
  {earlier : String → List LanguageDecl}

/-! ## The registry that tables make -/

/-- The table that an extension merges into a registry, if it can be merged. -/
def merged? (registry : Registry) (extension : Extension) : Option LanguageTable :=
  match registry.mergeExtension extension with
  | .ok _ => extension.table?
  | .error _ => none

/-- The tables that extensions merge into a registry one after the other. -/
def accepted (registry : Registry) : List Extension → List LanguageTable
  | [] => []
  | extension :: extensions =>
    (registry.merged? extension).toList ++ (registry.extend extension).accepted extensions

/-- Whether the languages of a registry have what their chains come to, when tables were merged one
after the other. -/
structure Traces (registry : Registry) (tables : List LanguageTable) : Prop where
  find?_eq : ∀ id, registry.find? id = LanguageDecl.setOf? (lineage tables id)
  isChainOf : ∀ id, lineage tables id ≠ [] → IsChainOf id (lineage tables id)
  compiles : ∀ id, ∀ decl ∈ lineage tables id, decl.Compiles

theorem setUnder_eq_setOf? (h : ∀ id, registry.find? id = LanguageDecl.setOf? (earlier id))
    (id : String) :
    registry.setUnder declarations id =
      LanguageDecl.setOf? (chainBehind earlier declarations id) := by
  induction declarations generalizing id with
  | nil => exact h id
  | cons decl before ih =>
      rw [setUnder, chainBehind]
      split
      next =>
        rw [LanguageDecl.setOf?, ← LanguageDecl.getD_setOf?]
        cases decl.parent with
        | none => rfl
        | some parent => rw [Option.bind_some, ih, Option.elim_some]
      next => exact ih id

/-- Behind declarations that are in order a language that is known has a chain of its own. -/
theorem isChainOf_chainBehind (h : ∀ id, registry.find? id = LanguageDecl.setOf? (earlier id))
    (hearlier : ∀ id, earlier id ≠ [] → IsChainOf id (earlier id))
    (hadmits : ∀ before decl after, declarations = before ++ decl :: after →
      registry.Admits before decl) {id : String}
    (hne : chainBehind earlier declarations.reverse id ≠ []) :
    IsChainOf id (chainBehind earlier declarations.reverse id) := by
  induction declarations using List.reverseRecOn generalizing id with
  | nil => exact hearlier id hne
  | append_singleton declarations decl ih =>
      obtain ⟨hbefore, hlast⟩ := forall_split_concat.mp hadmits
      rw [List.reverse_append, List.reverse_singleton, List.singleton_append, chainBehind] at hne ⊢
      split
      next hid =>
        cases hparent : decl.parent with
        | none => exact .root hid hparent
        | some parent =>
            refine .child hid hparent (ih hbefore ?_)
            rw [← LanguageDecl.isSome_setOf?_iff, ← setUnder_eq_setOf? h, isSome_setUnder_iff]
            simpa using hlast.parent_known parent hparent
      next hid =>
        rw [if_neg hid] at hne
        exact ih hbefore hne

theorem Traces.empty : ({ } : Registry).Traces [] := by
  constructor <;> simp [lineage, LanguageDecl.setOf?, find?]

/-- The step: one more table is merged. -/
theorem Traces.merge (h : registry.Traces tables) (hmerge : registry.merge table = .ok later) :
    later.Traces (tables ++ [table]) := by
  have hadmits := (exists_merge_iff.mp ⟨later, hmerge⟩).declarations
  obtain ⟨staged, hstaged, rfl, -⟩ := merge_eq_ok_iff.mp hmerge
  have hholds := (foldlM_add registry table.languages).2 staged hstaged
  constructor
  case find?_eq =>
    intro id
    rw [find?_withStaged hholds, LanguageDecl.lineage_concat, setUnder_eq_setOf? h.find?_eq]
  case isChainOf =>
    intro id hne
    rw [LanguageDecl.lineage_concat] at hne ⊢
    exact isChainOf_chainBehind h.find?_eq h.isChainOf hadmits hne
  case compiles =>
    intro id decl hmem
    rw [LanguageDecl.lineage_concat] at hmem
    rcases LanguageDecl.mem_chainBehind hmem with hmem | ⟨other, hmem⟩
    · obtain ⟨before, after, hsplit⟩ := List.append_of_mem (List.mem_reverse.mp hmem)
      exact (hadmits before decl after hsplit).isSound.compiles_all
    · exact h.compiles other decl hmem

/-- An extension that fails merges no table and changes nothing. -/
theorem merged?_cases (registry : Registry) (extension : Extension) :
    (registry.merged? extension = none ∧ registry.extend extension = registry) ∨
      ∃ table, registry.merged? extension = some table ∧
        registry.merge table = .ok (registry.extend extension) := by
  unfold merged? extend
  cases hmerge : registry.mergeExtension extension with
  | error failure => exact Or.inl ⟨rfl, rfl⟩
  | ok later => exact Or.inr (merge_of_mergeExtension hmerge)

/-- The run: extensions are merged one after the other, and those that cannot be are left out. -/
theorem Traces.extendAll (h : registry.Traces tables) (extensions : List Extension) :
    (registry.extendAll extensions).Traces (tables ++ registry.accepted extensions) := by
  induction extensions generalizing registry tables with
  | nil =>
      rw [accepted, List.append_nil]
      exact h
  | cons extension extensions ih =>
      change ((registry.extend extension).extendAll extensions).Traces _
      rw [accepted, ← List.append_assoc]
      rcases registry.merged?_cases extension with ⟨hnone, hsame⟩ | ⟨table, hsome, hmerge⟩
      · rw [hnone, hsame, Option.toList_none, List.append_nil]
        exact ih h
      · rw [hsome, Option.toList_some]
        exact ih (h.merge hmerge)

/-- A loaded registry that is extended, by tables that are merged and by others that fail: exactly
the languages with a chain in the merged tables are registered. Each has for each kind of rule the
patterns of the nearest declaration of its chain that has any, and likewise its markers and its
closing token, and finds on a line what these find. It keeps all this as long as no later table
declares it again, whatever is declared for the languages from which it took over. -/
theorem resolves_lineage_of_loaded (hstart : ofTable first = .ok start)
    (extensions : List Extension) (id : String) :
    let registry := start.extendAll extensions
    let chain := lineage (first :: start.accepted extensions) id
    (registry.contains id = true ↔ chain ≠ []) ∧
    ∀ set, registry.find? id = some set →
      IsChainOf id chain ∧ set.Resolves chain ∧
      (∀ line, registry.extract? line id = extractBy? chain line) ∧
      ∀ more : List Extension,
        (∀ table ∈ registry.accepted more, ∀ decl ∈ table.languages, id ∉ decl.ids) →
        (registry.extendAll more).find? id = some set ∧
          ∀ line, (registry.extendAll more).extract? line id = extractBy? chain line := by
  intro registry chain
  have htraces : registry.Traces (first :: start.accepted extensions) :=
    (Traces.empty.merge (merge_of_ofTable hstart).1).extendAll extensions
  refine ⟨?_, fun set hset => ?_⟩
  · rw [contains, htraces.find?_eq, LanguageDecl.isSome_setOf?_iff]
  have hfind := htraces.find?_eq id
  rw [hset, eq_comm, LanguageDecl.setOf?_eq_some_iff] at hfind
  obtain ⟨hne, rfl⟩ := hfind
  have hresolves := LanguageDecl.resolves_foldr (htraces.compiles id)
  have hextract {other : Registry}
      (hother : other.find? id = some (chain.foldr LanguageDecl.under { })) (line : String) :
      other.extract? line id = extractBy? chain line := by
    rw [extract?, ruleSet_of_find? hother]
    exact hresolves.extract?_eq line
  refine ⟨htraces.isChainOf id hne, hresolves, hextract hset, fun more hmore => ?_⟩
  have hlater : (registry.extendAll more).find? id = registry.find? id := by
    rw [(htraces.extendAll more).find?_eq, htraces.find?_eq,
      LanguageDecl.lineage_append_of_not_listed hmore]
  exact ⟨hlater.trans hset, hextract (hlater.trans hset)⟩

end

/-- Two languages, of which the second takes over from the first. -/
def parentTable : LanguageTable where
  fallback := some "a"
  languages := [
    { ids := ["a"]
      singleLine := ["^(//)(.+)$"]
      blockEnd := some "^()(.+)([*]/)$"
      blockClose := some "*/"
      lineMarkers := ["//"] },
    { ids := ["b"], parent := some "a", lineMarkers := ["--"] }]

/-- The first language is declared again under the second one, a third one takes over from it, and
the first is declared once more, without a parent; then a table fails. -/
def redeclared : List Extension := [
  .text ("[[language]]\nids=['a']\nextends='b'\nsingle_line=['^(;)(.+)$']\n" ++
    "[[language]]\nids=['c']\nextends='a'\n" ++
    "[[language]]\nids=['a']\nsingle_line=['^(%)(.+)$']\n"),
  .text "[[language]]\nids=['c']\nextends='d'\n"]

/-- The third language has a chain of four declarations, two of them of the first language, and goes
on to have it when the first language is declared yet another time. -/
theorem resolves_lineage_of_loaded_redeclared :
    ∃ start, ofTable parentTable = .ok start ∧
      let registry := start.extendAll redeclared
      let chain := lineage (parentTable :: start.accepted redeclared) "c"
      let later := registry.extendAll [.text "[[language]]\nids=['a', 'b']\n"]
      chain.map (·.ids) = [["c"], ["a"], ["b"], ["a"]] ∧
      nearest (·.lineMarkers) chain = ["--"] ∧
      extractBy? chain ";x" = some ⟨";", "x", ""⟩ ∧
      extractBy? chain "x*/" = some ⟨"", "x", "*/"⟩ ∧
      IsChainOf "c" chain ∧ (∀ line, registry.extract? line "c" = extractBy? chain line) ∧
      ∀ line, later.extract? line "c" = extractBy? chain line := by
  have hchecks : (ofTable parentTable).toOption.any (fun start =>
      let registry := start.extendAll redeclared
      let chain := lineage (parentTable :: start.accepted redeclared) "c"
      registry.contains "c" && chain.map (·.ids) == [["c"], ["a"], ["b"], ["a"]] &&
        nearest (·.lineMarkers) chain == ["--"] &&
        extractBy? chain ";x" == some ⟨";", "x", ""⟩ &&
        extractBy? chain "x*/" == some ⟨"", "x", "*/"⟩ &&
        (registry.accepted [.text "[[language]]\nids=['a', 'b']\n"]).all fun table =>
          table.languages.all fun decl => !decl.ids.contains "c") = true := by decide +kernel
  cases hstart : ofTable parentTable with
  | error failure =>
      rw [hstart] at hchecks
      cases hchecks
  | ok start =>
      rw [hstart] at hchecks
      simp only [Except.toOption, Option.any_some, Bool.and_eq_true, beq_iff_eq, List.all_eq_true,
        Bool.not_eq_true', List.contains_eq_mem, decide_eq_false_iff_not] at hchecks
      obtain ⟨⟨⟨⟨⟨hcontains, hids⟩, hmarkers⟩, hline⟩, hblock⟩, hmore⟩ := hchecks
      obtain ⟨set, hset⟩ := Option.isSome_iff_exists.mp hcontains
      obtain ⟨-, hall⟩ := resolves_lineage_of_loaded hstart redeclared "c"
      obtain ⟨hchain, -, hextract, hlater⟩ := hall set hset
      exact ⟨start, rfl, hids, hmarkers, hline, hblock, hchain, hextract, (hlater _ hmore).2⟩

end Registry

end Marginalia
