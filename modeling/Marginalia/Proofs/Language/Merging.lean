import Marginalia.Proofs.Language.Fallback
import Mathlib.Data.List.Induction

/-! # Tables are merged whole or not at all

A table is merged exactly when each of its declarations is sound behind the earlier ones and the
fallback language is registered then, whatever it is that compiles the patterns. What a declaration
comes to is said by looking back: from the last declaration that lists a language to the parent as
it was declared before, and in the end to the registry. A registry that is changed in place, step by
step, is either the merged one in the end or has not been touched.
-/

namespace Marginalia

variable {ε α β : Type}

theorem mapM_eq_ok_iff {f : α → Except ε β} {list : List α} {values : List β} :
    list.mapM f = .ok values ↔ (∀ a ∈ list, ∃ b, f a = .ok b) ∧
      values = list.filterMap fun a => (f a).toOption := by
  induction list generalizing values with
  | nil => simp [pure, Except.pure, eq_comm]
  | cons a list ih =>
      rw [List.mapM_cons]
      cases hfirst : f a with
      | error failure => simp [bind, Except.bind, hfirst]
      | ok b =>
          cases hrest : list.mapM f with
          | error failure =>
              have hnot : ¬ ∀ a ∈ list, ∃ b, f a = .ok b := by
                intro hall
                have hok := ih.mpr ⟨hall, rfl⟩
                rw [hrest] at hok
                cases hok
              simp [bind, Except.bind, hfirst, hnot]
          | ok rest =>
              obtain ⟨hall, rfl⟩ := ih.mp hrest
              have hcons : ∀ x ∈ a :: list, ∃ b, f x = .ok b :=
                List.forall_mem_cons.mpr ⟨⟨b, hfirst⟩, hall⟩
              rw [List.filterMap_cons_some (b := b) (by rw [hfirst]; rfl)]
              exact ⟨fun h => ⟨hcons, (Except.ok.inj h).symm⟩, fun h => congrArg _ h.2.symm⟩

/-- What holds at every place of a list holds at the places before the last one and at the last. -/
theorem forall_split_concat {p : List α → α → Prop} {list : List α} {last : α} :
    (∀ before a after, list ++ [last] = before ++ a :: after → p before a) ↔
      (∀ before a after, list = before ++ a :: after → p before a) ∧ p list last := by
  constructor
  · intro h
    refine ⟨fun before a after hsplit => ?_, h list last [] rfl⟩
    refine h before a (after ++ [last]) ?_
    rw [hsplit, List.append_assoc, List.cons_append]
  · rintro ⟨hbefore, hlast⟩ before a after hsplit
    rcases after.eq_nil_or_concat with rfl | ⟨after, b, rfl⟩
    · obtain ⟨rfl, hsame⟩ := List.append_inj' hsplit rfl
      cases hsame
      exact hlast
    · rw [List.concat_eq_append, ← List.cons_append, ← List.append_assoc] at hsplit
      exact hbefore before a after (List.append_inj' hsplit rfl).1

/-- Of rules that are put together kind by kind, those of a kind are the ones put there for it. -/
theorem Rule.filter_flatMap_all {rulesOf : RuleKind → List Rule} {kind : RuleKind}
    (h : ∀ kind, ∀ rule ∈ rulesOf kind, rule.kind = kind) :
    (RuleKind.all.flatMap rulesOf).filter (·.kind == kind) = rulesOf kind := by
  have hfilter (other : RuleKind) : (rulesOf other).filter (·.kind == kind) =
      if other = kind then rulesOf kind else [] := by
    split
    next heq =>
      subst heq
      exact List.filter_eq_self.mpr fun rule hmem => by simp [h _ rule hmem]
    next hne =>
      refine List.filter_eq_nil_iff.mpr fun rule hmem => ?_
      simpa [h _ rule hmem] using hne
  rw [List.filter_flatMap]
  simp only [hfilter]
  cases kind <;> simp [RuleKind.all]

theorem LanguageDecl.forall_mem_declared {decl : LanguageDecl} {p : RuleKind → String → Prop} :
    (∀ entry ∈ decl.declared, p entry.1 entry.2) ↔
      ∀ kind, ∀ source ∈ decl.patterns kind, p kind source := by
  simp only [declared, List.mem_flatMap, List.mem_map]
  constructor
  · intro h kind source hmem
    exact h (kind, source) ⟨kind, RuleKind.mem_all kind, source, hmem, rfl⟩
  · rintro h entry ⟨kind, -, source, hmem, rfl⟩
    exact h kind source hmem

/-- A key that stands with a value in front of others. -/
theorem lookup_reverse_map_append {keys : List String} {value : β} {key : String}
    {entries : List (String × β)} :
    ((keys.map (·, value)).reverse ++ entries).lookup key =
      if key ∈ keys then some value else entries.lookup key := by
  have hmap (keys : List String) : ((keys.map (·, value)) ++ entries).lookup key =
      if key ∈ keys then some value else entries.lookup key := by
    induction keys with
    | nil => simp
    | cons other keys ih =>
        rw [List.map_cons, List.cons_append, List.lookup_cons, ih]
        by_cases h : key = other
        · simp [h]
        · have hne : (key == other) = false := by simpa using h
          simp [hne, h]
  rw [← List.map_reverse, hmap]
  simp only [List.mem_reverse]

/-! ## One declaration -/

section

variable [Pattern.Compiler]

theorem Rule.compile_eq_ok_iff {kind : RuleKind} {source : String} {rule : Rule} :
    Rule.compile kind source = .ok rule ↔ ∃ pattern,
      Pattern.Compiler.compile? source = some pattern ∧ 2 ≤ pattern.groups ∧
        rule = ⟨kind, pattern⟩ := by
  unfold Rule.compile
  cases Pattern.Compiler.compile? source with
  | none => simp
  | some pattern =>
      by_cases hgroups : pattern.groups < 2
      · simp [hgroups, Nat.not_le.mpr hgroups]
      · simp [hgroups, Nat.not_lt.mp hgroups, eq_comm]

namespace LanguageDecl

variable {decl : LanguageDecl} {parent set : RuleSet}

/-- The rules of a kind that a declaration states itself. -/
def ownRules (decl : LanguageDecl) (kind : RuleKind) : List Rule :=
  (decl.patterns kind).filterMap fun source => (Rule.compile kind source).toOption

/-- What a declaration comes to under the rule set of its parent: what it states itself, and the
parent's where it states nothing. -/
def under (decl : LanguageDecl) (parent : RuleSet) : RuleSet where
  rules := RuleKind.all.flatMap fun kind => inherit (decl.ownRules kind) (parent.ofKind kind)
  blockClose := decl.blockClose.or parent.blockClose
  lineMarkers := inherit decl.lineMarkers parent.lineMarkers
  trailingMarkers := inherit decl.trailingMarkers parent.trailingMarkers

/-- Whether a declaration is sound under the rule set of its parent: its patterns can be compiled
and have at least two groups, and with a rule for the end of a block, its own or an inherited one,
there is a closing token, its own or an inherited one. -/
structure IsSound (decl : LanguageDecl) (parent : RuleSet) : Prop where
  compiles : ∀ kind, ∀ source ∈ decl.patterns kind,
    ∃ pattern, Pattern.Compiler.compile? source = some pattern ∧ 2 ≤ pattern.groups
  closes : (∃ rule ∈ (decl.under parent).rules, rule.kind = .blockEnd) →
    ∃ token, (decl.under parent).blockClose = some token

theorem kind_of_mem_ownRules {kind : RuleKind} {rule : Rule} (h : rule ∈ decl.ownRules kind) :
    rule.kind = kind := by
  obtain ⟨source, -, hrule⟩ := List.mem_filterMap.mp h
  cases hcompile : Rule.compile kind source with
  | error failure =>
      rw [hcompile] at hrule
      cases hrule
  | ok compiled =>
      rw [hcompile] at hrule
      cases hrule
      obtain ⟨_, -, -, rfl⟩ := Rule.compile_eq_ok_iff.mp hcompile
      rfl

/-- Of all the rules that are stated those of a kind are the ones that are stated for it. -/
theorem filter_ownRules (decl : LanguageDecl) (kind : RuleKind) :
    (RuleKind.all.flatMap decl.ownRules).filter (·.kind == kind) = decl.ownRules kind :=
  Rule.filter_flatMap_all fun _ _ => kind_of_mem_ownRules

theorem filterMap_declared (decl : LanguageDecl) :
    decl.declared.filterMap (fun entry => (Rule.compile entry.1 entry.2).toOption) =
      RuleKind.all.flatMap decl.ownRules := by
  rw [declared, List.filterMap_flatMap]
  simp only [List.filterMap_map]
  rfl

theorem resolve_eq_ok_iff :
    decl.resolve parent = .ok set ↔ decl.IsSound parent ∧ set = decl.under parent := by
  have hcompiles : (∀ entry ∈ decl.declared, ∃ rule, Rule.compile entry.1 entry.2 = .ok rule) ↔
      ∀ kind, ∀ source ∈ decl.patterns kind,
        ∃ pattern, Pattern.Compiler.compile? source = some pattern ∧ 2 ≤ pattern.groups := by
    rw [forall_mem_declared (p := fun kind source => ∃ rule, Rule.compile kind source = .ok rule)]
    simp only [Rule.compile_eq_ok_iff]
    constructor
    · intro h kind source hmem
      obtain ⟨_, pattern, hparse, hgroups, -⟩ := h kind source hmem
      exact ⟨pattern, hparse, hgroups⟩
    · intro h kind source hmem
      obtain ⟨pattern, hparse, hgroups⟩ := h kind source hmem
      exact ⟨_, pattern, hparse, hgroups, rfl⟩
  have hcloses : ¬ ((decl.under parent).rules.any (·.kind == .blockEnd) &&
      (decl.under parent).blockClose.isNone) = true ↔
      ((∃ rule ∈ (decl.under parent).rules, rule.kind = .blockEnd) →
        ∃ token, (decl.under parent).blockClose = some token) := by
    simp only [Bool.and_eq_true, List.any_eq_true, beq_iff_eq, Option.isNone_iff_eq_none, not_and,
      ← Option.isSome_iff_exists, ← Option.isSome_iff_ne_none]
  unfold resolve
  cases hown : decl.declared.mapM fun entry => Rule.compile entry.1 entry.2 with
  | error failure =>
      constructor
      · intro h
        cases h
      · rintro ⟨⟨hall, -⟩, -⟩
        rw [mapM_eq_ok_iff.mpr ⟨hcompiles.mpr hall, rfl⟩] at hown
        cases hown
  | ok own =>
      obtain ⟨hall, hrules⟩ := mapM_eq_ok_iff.mp hown
      rw [filterMap_declared] at hrules
      subst hrules
      simp only [bind, Except.bind, filter_ownRules]
      change (if ((decl.under parent).rules.any (·.kind == .blockEnd) &&
        (decl.under parent).blockClose.isNone) = true then _ else _) = _ ↔ _
      split
      next hopen =>
        constructor
        · intro h
          cases h
        · rintro ⟨⟨-, hcloses'⟩, -⟩
          exact absurd hopen (hcloses.mpr hcloses')
      next hclosed =>
        constructor
        · rintro ⟨rfl⟩
          exact ⟨⟨hcompiles.mp hall, hcloses.mp hclosed⟩, rfl⟩
        · rintro ⟨-, rfl⟩
          rfl

end LanguageDecl

end

namespace Registry

variable {registry later : Registry} {table : LanguageTable} {declarations : List LanguageDecl}

section

variable [Pattern.Compiler]

/-! ## Declarations over a registry -/

/-- The rule set of a language with declarations laid over a registry, the last one first: the last
declaration that lists the language, under its parent with the declarations before it. -/
def setUnder (registry : Registry) : List LanguageDecl → String → Option RuleSet
  | [], id => registry.find? id
  | decl :: before, id =>
    if id ∈ decl.ids then
      some (decl.under ((decl.parent.bind (registry.setUnder before)).getD { }))
    else registry.setUnder before id

/-- The rule set that a declaration behind others has for a parent, which is empty when it names
none. -/
def parentSet (registry : Registry) (before : List LanguageDecl) (decl : LanguageDecl) : RuleSet :=
  (decl.parent.bind (registry.setUnder before.reverse)).getD { }

/-- Whether a declaration is in order behind others: it has an id, it names no parent but a language
of an earlier declaration or a registered one, and it is sound under that. -/
structure Admits (registry : Registry) (before : List LanguageDecl) (decl : LanguageDecl) :
    Prop where
  ids_ne : decl.ids ≠ []
  parent_known : ∀ parent, decl.parent = some parent →
    (∃ other ∈ before, parent ∈ other.ids) ∨ registry.contains parent = true
  isSound : decl.IsSound (registry.parentSet before decl)

/-- The extensions that a declaration claims for its main id. -/
def claimed (decl : LanguageDecl) : List (String × String) :=
  decl.extensions.map (extensionKey ·, decl.ids.headD "")

/-- Whether these are the declarations that were resolved. -/
structure Staged.Holds (staged : Staged) (registry : Registry)
    (declarations : List LanguageDecl) : Prop where
  find?_eq : ∀ id, (staged.sets.lookup id).or (registry.find? id) =
    registry.setUnder declarations.reverse id
  listed_iff : ∀ id, (staged.sets.lookup id).isSome = true ↔ ∃ decl ∈ declarations, id ∈ decl.ids
  extensions_eq : staged.extensions = (declarations.flatMap claimed).reverse

theorem setUnder_of_not_listed {id : String} (h : ∀ decl ∈ declarations, id ∉ decl.ids) :
    registry.setUnder declarations id = registry.find? id := by
  induction declarations with
  | nil => rfl
  | cons decl before ih =>
      obtain ⟨hfirst, hbefore⟩ := List.forall_mem_cons.mp h
      rw [setUnder, if_neg hfirst, ih hbefore]

/-- Only the last declaration that lists a language counts for it. -/
theorem setUnder_append {id : String} {last : List LanguageDecl}
    (h : ∀ decl ∈ last, id ∉ decl.ids) :
    registry.setUnder (last ++ declarations) id = registry.setUnder declarations id := by
  induction last with
  | nil => rfl
  | cons decl last ih =>
      obtain ⟨hfirst, hlast⟩ := List.forall_mem_cons.mp h
      rw [List.cons_append, setUnder, if_neg hfirst, ih hlast]

theorem isSome_setUnder_iff {id : String} :
    (registry.setUnder declarations id).isSome = true ↔
      (∃ decl ∈ declarations, id ∈ decl.ids) ∨ registry.contains id = true := by
  induction declarations with
  | nil => simp [setUnder, contains]
  | cons decl before ih =>
      rw [setUnder]
      split
      next h => simp [h]
      next h => simp [h, ih]

theorem Staged.Holds.empty : Staged.Holds { } registry [] where
  find?_eq _ := rfl
  listed_iff _ := by simp
  extensions_eq := rfl

/-- The parent of a declaration is looked up as it was declared before. -/
theorem Staged.Holds.parent_eq_ok_iff {staged : Staged} (h : staged.Holds registry declarations)
    {decl : LanguageDecl} {language : String} {set : RuleSet} :
    staged.parent registry language decl.parent = .ok set ↔
      (∀ parent, decl.parent = some parent →
        (∃ other ∈ declarations, parent ∈ other.ids) ∨ registry.contains parent = true) ∧
      set = registry.parentSet declarations decl := by
  cases hparent : decl.parent with
  | none =>
      simp only [Staged.parent, parentSet, hparent, Option.bind_none, Option.getD_none,
        Except.ok.injEq]
      exact ⟨fun h => ⟨fun _ hsome => (by cases hsome), h.symm⟩, fun h => h.2.symm⟩
  | some parent =>
      have hknown : (registry.setUnder declarations.reverse parent).isSome = true ↔ _ :=
        isSome_setUnder_iff
      simp only [List.mem_reverse] at hknown
      simp only [Staged.parent, h.find?_eq, parentSet, hparent, Option.bind_some,
        Option.some.injEq, forall_eq', ← hknown]
      cases registry.setUnder declarations.reverse parent <;> simp [eq_comm]

/-- The step of the run: one more declaration is resolved when it is in order, and then it counts
before the others. -/
theorem Staged.Holds.add {staged : Staged} (h : staged.Holds registry declarations)
    (decl : LanguageDecl) :
    ((∃ later, Staged.add registry staged decl = .ok later) ↔ registry.Admits declarations decl) ∧
    ∀ later, Staged.add registry staged decl = .ok later →
      later.Holds registry (declarations ++ [decl]) := by
  have hadd : ∀ later, Staged.add registry staged decl = .ok later ↔
      registry.Admits declarations decl ∧ later = {
        sets := (decl.ids.map (·, decl.under (registry.parentSet declarations decl))).reverse ++
          staged.sets
        extensions := (claimed decl).reverse ++ staged.extensions } := by
    intro later
    unfold Staged.add
    split
    next hnil =>
      constructor
      · intro hfails
        cases hfails
      · rintro ⟨⟨hids, -, -⟩, -⟩
        exact absurd hnil hids
    next main others hids =>
      have hclaimed : claimed decl = decl.extensions.map (extensionKey ·, main) := by
        rw [claimed, hids, List.headD_cons]
      have hne : decl.ids ≠ [] := by simp [hids]
      cases hparent : staged.parent registry main decl.parent with
      | error failure =>
          constructor
          · intro hfails
            cases hfails
          · rintro ⟨⟨-, hknown, -⟩, -⟩
            rw [h.parent_eq_ok_iff.mpr ⟨hknown, rfl⟩] at hparent
            cases hparent
      | ok set =>
          obtain ⟨hknown, rfl⟩ := h.parent_eq_ok_iff.mp hparent
          simp only [bind, Except.bind]
          cases hresolve : decl.resolve (registry.parentSet declarations decl) with
          | error failure =>
              constructor
              · intro hfails
                cases hfails
              · rintro ⟨⟨-, -, hsound⟩, -⟩
                rw [LanguageDecl.resolve_eq_ok_iff.mpr ⟨hsound, rfl⟩] at hresolve
                cases hresolve
          | ok set =>
              obtain ⟨hsound, rfl⟩ := LanguageDecl.resolve_eq_ok_iff.mp hresolve
              rw [hclaimed, hids]
              exact ⟨fun hok => ⟨⟨hne, hknown, hsound⟩, (Except.ok.inj hok).symm⟩,
                fun hok => congrArg _ hok.2.symm⟩
  refine ⟨⟨fun ⟨later, hok⟩ => ((hadd later).mp hok).1, fun hadmits =>
    ⟨_, (hadd _).mpr ⟨hadmits, rfl⟩⟩⟩, fun later hok => ?_⟩
  obtain ⟨-, rfl⟩ := (hadd later).mp hok
  constructor
  · intro id
    rw [List.reverse_append, List.reverse_singleton, List.singleton_append, setUnder,
      lookup_reverse_map_append]
    by_cases hid : id ∈ decl.ids
    · rw [if_pos hid, if_pos hid, Option.some_or]
      rfl
    · rw [if_neg hid, if_neg hid, h.find?_eq]
  · intro id
    rw [lookup_reverse_map_append]
    by_cases hid : id ∈ decl.ids
    · simp [hid]
    · simp [hid, h.listed_iff]
  · simp [h.extensions_eq]

theorem foldlM_add (registry : Registry) (declarations : List LanguageDecl) :
    ((∃ staged, declarations.foldlM (Staged.add registry) { } = .ok staged) ↔
      ∀ before decl after, declarations = before ++ decl :: after →
        registry.Admits before decl) ∧
    ∀ staged, declarations.foldlM (Staged.add registry) { } = .ok staged →
      staged.Holds registry declarations := by
  induction declarations using List.reverseRecOn with
  | nil =>
      refine ⟨⟨fun _ before decl after h => by simp at h, fun _ => ⟨{ }, rfl⟩⟩, ?_⟩
      rintro staged ⟨rfl⟩
      exact .empty
  | append_singleton declarations decl ih =>
      obtain ⟨hiff, hholds⟩ := ih
      rw [List.foldlM_append, forall_split_concat, ← hiff]
      cases hfold : declarations.foldlM (Staged.add registry) { } with
      | error failure =>
          refine ⟨⟨?_, ?_⟩, ?_⟩
          · rintro ⟨_, h⟩
            cases h
          · rintro ⟨⟨_, h⟩, -⟩
            cases h
          · intro _ h
            cases h
      | ok staged =>
          obtain ⟨hstep, hlater⟩ := (hholds staged hfold).add decl
          have hone : (Except.ok staged >>= fun staged =>
              [decl].foldlM (Staged.add registry) staged) = Staged.add registry staged decl := by
            simp [bind, Except.bind]
            cases Staged.add registry staged decl <;> rfl
          rw [hone]
          exact ⟨hstep.trans ⟨fun h => ⟨⟨staged, rfl⟩, h⟩, And.right⟩, hlater⟩

/-! ## A table over a registry -/

/-- Whether a table can be merged: its declarations are in order one behind the other, and the
fallback language, the one that the table names or else the one that is there, is a language of
the table or a registered one unless it is the empty text. -/
structure AdmitsTable (registry : Registry) (table : LanguageTable) : Prop where
  declarations : ∀ before decl after, table.languages = before ++ decl :: after →
    registry.Admits before decl
  fallback : table.fallback.getD registry.fallback = "" ∨
    (∃ decl ∈ table.languages, table.fallback.getD registry.fallback ∈ decl.ids) ∨
    registry.contains (table.fallback.getD registry.fallback) = true

/-- What a registry is with a table merged into it. -/
structure Extends (registry : Registry) (table : LanguageTable) (later : Registry) : Prop where
  /-- A language of the table has what the last declaration that lists it comes to. -/
  find?_listed : ∀ before decl after, table.languages = before ++ decl :: after →
    ∀ id ∈ decl.ids, (∀ other ∈ after, id ∉ other.ids) →
      later.find? id = some (decl.under (registry.parentSet before decl))
  find?_unlisted : ∀ id, (∀ decl ∈ table.languages, id ∉ decl.ids) →
    later.find? id = registry.find? id
  /-- An extension belongs to the last declaration that claims it. -/
  lookup_extensions : ∀ key, later.extensions.lookup key =
    ((table.languages.flatMap claimed).reverse.lookup key).or (registry.extensions.lookup key)
  fallback_eq : later.fallback = table.fallback.getD registry.fallback
  commonMarkers_eq : later.commonMarkers = registry.commonMarkers ++ table.commonMarkers
  commonContains_eq : later.commonContains = registry.commonContains ++ table.commonContains

theorem find?_withStaged {staged : Staged} (h : staged.Holds registry declarations) (id : String) :
    (registry.withStaged staged table).find? id = registry.setUnder declarations.reverse id := by
  rw [← h.find?_eq, find?, withStaged, List.lookup_append]
  rfl

theorem contains_withStaged_iff {staged : Staged} (h : staged.Holds registry declarations)
    {id : String} : (registry.withStaged staged table).contains id = true ↔
      (∃ decl ∈ declarations, id ∈ decl.ids) ∨ registry.contains id = true := by
  rw [contains, find?_withStaged h, isSome_setUnder_iff]
  simp only [List.mem_reverse]

theorem exists_merge_iff : (∃ later, registry.merge table = .ok later) ↔
    registry.AdmitsTable table := by
  obtain ⟨hiff, hholds⟩ := foldlM_add registry table.languages
  simp only [merge_eq_ok_iff]
  constructor
  · rintro ⟨later, staged, hstaged, rfl, hfallback⟩
    refine ⟨hiff.mp ⟨staged, hstaged⟩, hfallback.imp_right fun hcontains => ?_⟩
    exact (contains_withStaged_iff (hholds staged hstaged)).mp hcontains
  · rintro ⟨hdeclarations, hfallback⟩
    obtain ⟨staged, hstaged⟩ := hiff.mpr hdeclarations
    refine ⟨_, staged, hstaged, rfl, hfallback.imp_right fun hlisted => ?_⟩
    exact (contains_withStaged_iff (hholds staged hstaged)).mpr hlisted

theorem extends_of_merge (h : registry.merge table = .ok later) : registry.Extends table later := by
  obtain ⟨staged, hstaged, rfl, -⟩ := merge_eq_ok_iff.mp h
  have hholds := (foldlM_add registry table.languages).2 staged hstaged
  constructor
  case find?_listed =>
    intro before decl after hsplit id hid hlast
    rw [find?_withStaged hholds, hsplit, List.reverse_append, List.reverse_cons,
      List.append_assoc, setUnder_append (by simpa using hlast), List.singleton_append, setUnder,
      if_pos hid]
    rfl
  case find?_unlisted =>
    intro id hid
    rw [find?_withStaged hholds, setUnder_of_not_listed (by simpa using hid)]
  case lookup_extensions =>
    intro key
    rw [withStaged, List.lookup_append, hholds.extensions_eq]
  case fallback_eq => rfl
  case commonMarkers_eq => rfl
  case commonContains_eq => rfl

end

/-! ## A registry that is changed in place -/

/-- Steps on a registry that is changed in place. What a step has changed stays changed when a
later one fails. -/
abbrev InPlace (α : Type) := ExceptT Failure (StateM Registry) α

/-- What steps come to on a registry: how they end, and the registry then. -/
def InPlace.result {α : Type} (steps : InPlace α) (registry : Registry) :
    Except Failure α × Registry :=
  (ExceptT.run steps).run registry

theorem InPlace.result_bind (steps : InPlace α) (next : α → InPlace β) (registry : Registry) :
    (steps >>= next).result registry =
      match steps.result registry with
      | (.ok value, later) => (next value).result later
      | (.error failure, later) => (.error failure, later) := by
  change ExceptT.bindCont next (steps registry).1 (steps registry).2 =
    match steps registry with
    | (.ok value, later) => (next value) later
    | (.error failure, later) => (.error failure, later)
  rcases steps registry with ⟨_ | value, later⟩ <;> rfl

section

variable [Pattern.Compiler]

/-- Resolves one more declaration against the registry as it is. -/
def stageInPlace (staged : Staged) (decl : LanguageDecl) : InPlace Staged := do
  match Staged.add (← get) staged decl with
  | .ok staged => return staged
  | .error failure => throw failure

/-- Makes all changes of a table whose declarations were resolved, one after the other. -/
def commitInPlace (staged : Staged) (table : LanguageTable) (fallback : String) :
    InPlace Unit := do
  modify fun registry => { registry with sets := staged.sets ++ registry.sets }
  modify fun registry => { registry with extensions := staged.extensions ++ registry.extensions }
  modify fun registry => { registry with fallback }
  modify fun registry => { registry with
    commonMarkers := registry.commonMarkers ++ table.commonMarkers }
  modify fun registry => { registry with
    commonContains := registry.commonContains ++ table.commonContains }

/-- Merges the text of a table in place. -/
def mergeInPlace (source : String) : InPlace Unit := do
  match LanguageTable.parse? source with
  | none => throw .toml
  | some table =>
    let staged ← table.languages.foldlM stageInPlace { }
    let registry ← get
    let fallback := table.fallback.getD registry.fallback
    if fallback != "" && (staged.sets.lookup fallback).isNone && !registry.contains fallback then
      throw (.table (.undefinedFallback fallback))
    else
      commitInPlace staged table fallback

theorem result_stageInPlace (staged : Staged) (decl : LanguageDecl) :
    (stageInPlace staged decl).result registry = (Staged.add registry staged decl, registry) := by
  rw [stageInPlace, InPlace.result_bind]
  change (match Staged.add registry staged decl with
    | .ok staged => (return staged : InPlace Staged)
    | .error failure => throw failure).result registry = _
  cases Staged.add registry staged decl <;> rfl

theorem result_foldlM_stageInPlace (staged : Staged) :
    (declarations.foldlM stageInPlace staged).result registry =
      (declarations.foldlM (Staged.add registry) staged, registry) := by
  induction declarations generalizing staged with
  | nil => rfl
  | cons decl declarations ih =>
      rw [List.foldlM_cons, List.foldlM_cons, InPlace.result_bind, result_stageInPlace]
      cases Staged.add registry staged decl with
      | error failure => rfl
      | ok staged => exact ih staged

theorem merge_of_staged {staged : Staged}
    (h : table.languages.foldlM (Staged.add registry) { } = .ok staged) :
    registry.merge table =
      if table.fallback.getD registry.fallback != "" &&
          (staged.sets.lookup (table.fallback.getD registry.fallback)).isNone &&
          !registry.contains (table.fallback.getD registry.fallback) then
        .error (.table (.undefinedFallback (table.fallback.getD registry.fallback)))
      else .ok (registry.withStaged staged table) := by
  have hcontains (id : String) : (registry.withStaged staged table).contains id =
      ((staged.sets.lookup id).isSome || registry.contains id) := by
    rw [contains, find?, withStaged, List.lookup_append, Option.isSome_or]
    rfl
  rw [merge, h]
  change (if _ && !(registry.withStaged staged table).contains _ then _ else _) = _
  simp only [hcontains, Bool.not_or, Option.not_isSome, Bool.and_assoc]
  rfl

/-- In place a table is merged as a whole, or the registry stays as it was. -/
theorem result_mergeInPlace (registry : Registry) (source : String) :
    (mergeInPlace source).result registry =
      match registry.mergeText source with
      | .ok later => (.ok (), later)
      | .error failure => (.error failure, registry) := by
  unfold mergeInPlace mergeText
  cases LanguageTable.parse? source with
  | none => rfl
  | some table =>
      simp only
      rw [InPlace.result_bind, result_foldlM_stageInPlace]
      cases hstaged : table.languages.foldlM (Staged.add registry) ({ } : Staged) with
      | error failure =>
          rw [merge, hstaged]
          rfl
      | ok staged =>
          rw [merge_of_staged hstaged]
          change (ite _ _ (commitInPlace staged table _)).result registry = _
          split
          next => rfl
          next => rfl

/-- Every table is merged whole or not at all, for any compiler of patterns. Its text is merged
exactly when it is that of a table that the registry admits. When it is refused a registry that is
changed in place is the one that it was; when it is merged such a registry is the merged one, in
which a language of the table has what its last declaration comes to and every other language what
it had. -/
theorem exists_mergeText_iff_and_extends (registry : Registry) (source : String) :
    ((∃ later, registry.mergeText source = .ok later) ↔
      ∃ table, LanguageTable.parse? source = some table ∧ registry.AdmitsTable table) ∧
    (∀ failure, registry.mergeText source = .error failure →
      (mergeInPlace source).result registry = (.error failure, registry) ∧
        registry.extend (.text source) = registry) ∧
    ∀ later, registry.mergeText source = .ok later →
      (mergeInPlace source).result registry = (.ok (), later) ∧
        registry.extend (.text source) = later ∧
        ∃ table, LanguageTable.parse? source = some table ∧ registry.Extends table later := by
  refine ⟨⟨fun ⟨later, hok⟩ => ?_, fun ⟨table, hparse, hadmits⟩ => ?_⟩,
    fun failure hrefused => ?_, fun later hok => ?_⟩
  · obtain ⟨table, hparse, hmerge⟩ := merge_of_mergeText hok
    exact ⟨table, hparse, exists_merge_iff.mp ⟨later, hmerge⟩⟩
  · obtain ⟨later, hmerge⟩ := exists_merge_iff.mpr hadmits
    refine ⟨later, ?_⟩
    rw [mergeText, hparse]
    exact hmerge
  · rw [result_mergeInPlace, extend, mergeExtension, hrefused]
    exact ⟨rfl, rfl⟩
  · rw [result_mergeInPlace, extend, mergeExtension, hok]
    obtain ⟨table, hparse, hmerge⟩ := merge_of_mergeText hok
    exact ⟨rfl, rfl, table, hparse, extends_of_merge hmerge⟩

end

/-- A registry with a language that has a marker and no rules. -/
def markedRegistry : Registry where
  sets := [("bat", { lineMarkers := ["REM"] })]
  fallback := "bat"

/-- A table that declares the language again, over the one of that name, with a rule for comments
that begin with a word; a second language takes over from it. -/
def wordTable : String :=
  "[[language]]\nids=['bat', 'cmd']\nextends='bat'\n" ++
    "single_line=['^(\\s*REM\\b\\s*)(.+)$']\n" ++
    "[[language]]\nids=['btm']\nextends='cmd'\n"

/-- A table whose second language names an unknown parent. -/
def orphanTable : String :=
  "[[language]]\nids=['a']\nsingle_line=['^(--)(.+)$']\n[[language]]\nids=['b']\nextends='c'\n"

/-- Of two tables the one is merged, and a language in it finds the comments of its parent and keeps
the marker of the language that the parent replaces. Of the other one nothing is merged, although
its first language is in order. -/
theorem exists_mergeText_iff_and_extends_word :
    ∃ later table, LanguageTable.parse? wordTable = some table ∧
      markedRegistry.AdmitsTable table ∧ markedRegistry.Extends table later ∧
      (mergeInPlace wordTable).result markedRegistry = (.ok (), later) ∧
      later.extract? " REM one" "btm" = some ⟨" REM ", "one", ""⟩ ∧
      later.extract? " REMARK" "btm" = none ∧ (later.ruleSet "btm").lineMarkers = ["REM"] ∧
      (¬ ∃ table, LanguageTable.parse? orphanTable = some table ∧ later.AdmitsTable table) ∧
      (mergeInPlace orphanTable).result later =
        (.error (.table (.unknownParent "b" "c")), later) := by
  have hchecks : (markedRegistry.mergeText wordTable).toOption.any (fun later =>
      later.extract? " REM one" "btm" == some ⟨" REM ", "one", ""⟩ &&
        later.extract? " REMARK" "btm" == none && (later.ruleSet "btm").lineMarkers == ["REM"] &&
        decide (later.mergeText orphanTable = .error (.table (.unknownParent "b" "c")))) =
          true := by
    decide +kernel
  cases hmerge : markedRegistry.mergeText wordTable with
  | error failure =>
      rw [hmerge] at hchecks
      cases hchecks
  | ok later =>
      rw [hmerge] at hchecks
      simp only [Except.toOption, Option.any_some, Bool.and_eq_true, beq_iff_eq,
        decide_eq_true_eq] at hchecks
      obtain ⟨⟨⟨hfound, hnone⟩, hmarkers⟩, hrefused⟩ := hchecks
      obtain ⟨hadmits, -, hmerged⟩ := exists_mergeText_iff_and_extends markedRegistry wordTable
      obtain ⟨hinPlace, -, table, hparse, hextends⟩ := hmerged later hmerge
      obtain ⟨_, hparse', hadmitted⟩ := hadmits.mp ⟨later, hmerge⟩
      cases hparse.symm.trans hparse'
      obtain ⟨horphan, hfails, -⟩ := exists_mergeText_iff_and_extends later orphanTable
      refine ⟨later, table, hparse, hadmitted, hextends, hinPlace, hfound, hnone, hmarkers, ?_,
        (hfails _ hrefused).1⟩
      rw [← horphan, hrefused]
      simp

end Registry

end Marginalia
