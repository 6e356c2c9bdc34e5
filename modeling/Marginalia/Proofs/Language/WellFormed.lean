import Marginalia.Proofs.Cache.Entries
import Marginalia.Proofs.Language.Merging

/-! # Well-formed registries

Whatever tables a registry was made of, each of its languages has its rules sorted by their kinds,
at most one rule of each kind of block rule, two groups in every pattern and a closing token with
a rule for the end of a block, and each extension leads to a registered language. A declaration
under a well-formed parent is well-formed again, as its own rules and the inherited ones are sorted
when they are put together; and so a registry stays well-formed with every table that is merged.
-/

namespace Marginalia

variable {rules : List Rule} {kind : RuleKind}

/-! ## Sorting by kind -/

/-- How rules are sorted. -/
def Rule.upTo (first second : Rule) : Bool := first.kind.rank ≤ second.kind.rank

theorem Rule.upTo_trans (first second third : Rule) (h : first.upTo second = true)
    (hnext : second.upTo third = true) : first.upTo third = true := by
  rw [upTo, decide_eq_true_eq] at *
  exact Nat.le_trans h hnext

theorem Rule.upTo_total (first second : Rule) :
    (first.upTo second || second.upTo first) = true := by
  simpa [upTo] using Nat.le_total first.kind.rank second.kind.rank

theorem RuleKind.exists_split (kind : RuleKind) : ∃ before after,
    all = before ++ kind :: after ∧ (∀ other ∈ before, other.rank < kind.rank) ∧
      kind ∉ after := by
  refine ⟨all.take kind.rank, all.drop (kind.rank + 1), ?_⟩
  cases kind <;> decide

/-- Sorted rules are those of the first kind, then those of the second, and so on. -/
theorem Rule.flatMap_filter_of_sorted (h : rules.Pairwise fun first second => first.upTo second) :
    RuleKind.all.flatMap (fun kind => rules.filter (·.kind == kind)) = rules := by
  induction rules with
  | nil => simp
  | cons rule rules ih =>
      obtain ⟨hfirst, hrest⟩ := List.pairwise_cons.mp h
      obtain ⟨before, after, hall, hbefore, hafter⟩ := rule.kind.exists_split
      have hrules := ih hrest
      -- None of the rules behind the first one is of an earlier kind.
      have hnone : before.flatMap (fun kind => rules.filter (·.kind == kind)) = [] := by
        refine List.flatMap_eq_nil_iff.mpr fun kind hkind => ?_
        refine List.filter_eq_nil_iff.mpr fun other hmem heq => ?_
        have hlt := beq_iff_eq.mp heq ▸ hbefore kind hkind
        have hle := hfirst other hmem
        rw [upTo, decide_eq_true_eq] at hle
        exact Nat.not_lt.mpr hle hlt
      have hskip (kinds : List RuleKind) (hnot : rule.kind ∉ kinds) :
          kinds.flatMap (fun kind => (rule :: rules).filter (·.kind == kind)) =
            kinds.flatMap (fun kind => rules.filter (·.kind == kind)) := by
        refine List.flatMap_congr fun kind hkind => List.filter_cons_of_neg ?_
        rw [beq_iff_eq]
        exact fun heq => hnot (heq ▸ hkind)
      rw [hall, List.flatMap_append, List.flatMap_cons, hnone, List.nil_append] at hrules
      rw [hall, List.flatMap_append, List.flatMap_cons, hskip after hafter,
        hskip before fun hmem => Nat.lt_irrefl _ (hbefore _ hmem), hnone, List.nil_append,
        List.filter_cons_of_pos (by simp), List.cons_append, hrules]

/-- Sorting is stable: the rules of a kind stay in their order. -/
theorem Rule.filter_mergeSort (rules : List Rule) (kind : RuleKind) :
    (rules.mergeSort upTo).filter (·.kind == kind) = rules.filter (·.kind == kind) := by
  have hsame : (rules.filter (·.kind == kind)).Pairwise fun first second => first.upTo second := by
    refine List.pairwise_of_forall_mem_list fun first hfirst second hsecond => ?_
    rw [List.mem_filter, beq_iff_eq] at hfirst hsecond
    simp [upTo, hfirst.2, hsecond.2]
  have hsub := (List.sublist_mergeSort upTo_trans upTo_total hsame List.filter_sublist).filter
    (·.kind == kind)
  rw [List.filter_filter, List.filter_congr fun _ _ => Bool.and_self _] at hsub
  refine (hsub.eq_of_length ?_).symm
  exact (((List.mergeSort_perm rules upTo).filter _).length_eq).symm

/-! ## Rule sets -/

/-- Whether a rule set has what every rule set of a registry has. -/
structure RuleSet.WellFormed (set : RuleSet) : Prop where
  sorted : set.rules.Pairwise fun first second => first.kind.rank ≤ second.kind.rank
  /-- There is at most one rule of each kind of block rule. -/
  length_ofKind_le : ∀ kind ≠ .singleLine, (set.ofKind kind).length ≤ 1
  /-- The groups of a pattern are counted right, and there are two at least. -/
  groups_eq : ∀ rule ∈ set.rules, rule.pattern.groups = rule.pattern.expr.groupCount
  two_le_groups : ∀ rule ∈ set.rules, 2 ≤ rule.pattern.groups
  closes : ∀ rule ∈ set.rules, rule.kind = .blockEnd → ∃ token, set.blockClose = some token

theorem RuleSet.WellFormed.empty : ({ } : RuleSet).WellFormed := by
  constructor <;> simp [RuleSet.ofKind]

namespace LanguageDecl

variable [Pattern.Compiler] {decl : LanguageDecl} {parent : RuleSet} {rule : Rule}

/-- The rules that a declaration takes over from its parent: those of the kinds for which it states
none itself. -/
def takenOver (decl : LanguageDecl) (parent : RuleSet) : List Rule :=
  RuleKind.all.flatMap fun kind =>
    if (decl.ownRules kind).isEmpty then parent.ofKind kind else []

theorem ofKind_under : (decl.under parent).ofKind kind =
    inherit (decl.ownRules kind) (parent.ofKind kind) := by
  have hkind (kind : RuleKind) (rule : Rule)
      (hmem : rule ∈ inherit (decl.ownRules kind) (parent.ofKind kind)) : rule.kind = kind := by
    unfold inherit at hmem
    split at hmem
    next => exact beq_iff_eq.mp (List.mem_filter.mp hmem).2
    next => exact kind_of_mem_ownRules hmem
  exact Rule.filter_flatMap_all hkind

theorem filter_takenOver : (decl.takenOver parent).filter (·.kind == kind) =
    if (decl.ownRules kind).isEmpty then parent.ofKind kind else [] := by
  refine Rule.filter_flatMap_all fun kind rule hmem => ?_
  split at hmem
  next => exact beq_iff_eq.mp (List.mem_filter.mp hmem).2
  next => cases hmem

/-- The rules of a declaration are its own ones and those that it takes over, sorted by kind. -/
theorem rules_under_eq_mergeSort : (decl.under parent).rules =
    (RuleKind.all.flatMap decl.ownRules ++ decl.takenOver parent).mergeSort Rule.upTo := by
  rw [← Rule.flatMap_filter_of_sorted
    (List.pairwise_mergeSort Rule.upTo_trans Rule.upTo_total _)]
  refine List.flatMap_congr fun kind _ => ?_
  rw [Rule.filter_mergeSort, List.filter_append, filter_ownRules, filter_takenOver, inherit]
  split
  next hempty => rw [List.isEmpty_iff.mp hempty, List.nil_append]
  next => rw [List.append_nil]

/-- A rule is stated by the declaration itself or is one of the parent. -/
theorem mem_rules_under (h : rule ∈ (decl.under parent).rules) :
    rule ∈ decl.ownRules rule.kind ∨ rule ∈ parent.rules := by
  have hmem : rule ∈ (decl.under parent).ofKind rule.kind :=
    List.mem_filter.mpr ⟨h, beq_self_eq_true _⟩
  rw [ofKind_under, inherit] at hmem
  split at hmem
  next => exact Or.inr (List.mem_filter.mp hmem).1
  next => exact Or.inl hmem

theorem groups_of_mem_ownRules (h : rule ∈ decl.ownRules kind) :
    rule.pattern.groups = rule.pattern.expr.groupCount ∧ 2 ≤ rule.pattern.groups := by
  obtain ⟨source, -, hrule⟩ := List.mem_filterMap.mp h
  cases hcompile : Rule.compile kind source with
  | error failure =>
      rw [hcompile] at hrule
      cases hrule
  | ok compiled =>
      rw [hcompile] at hrule
      cases hrule
      obtain ⟨pattern, hparse, hgroups, rfl⟩ := Rule.compile_eq_ok_iff.mp hcompile
      exact ⟨Pattern.Compiler.groups_eq hparse, hgroups⟩

theorem length_ownRules_le (h : kind ≠ .singleLine) : (decl.ownRules kind).length ≤ 1 := by
  refine Nat.le_trans (List.length_filterMap_le _ _) ?_
  have hoption (source : Option String) : source.toList.length ≤ 1 := by cases source <;> simp
  cases kind with
  | singleLine => exact absurd rfl h
  | inlineBlock | blockStart | blockMiddle | blockEnd => exact hoption _

/-- The step from a parent to a declaration that is sound under it. -/
theorem wellFormed_under (hparent : parent.WellFormed) (h : decl.IsSound parent) :
    (decl.under parent).WellFormed := by
  constructor
  case sorted =>
    rw [rules_under_eq_mergeSort]
    refine (List.pairwise_mergeSort Rule.upTo_trans Rule.upTo_total _).imp fun hle => ?_
    exact of_decide_eq_true hle
  case length_ofKind_le =>
    intro kind hkind
    rw [ofKind_under, inherit]
    split
    next => exact hparent.length_ofKind_le kind hkind
    next => exact length_ownRules_le hkind
  case groups_eq =>
    intro rule hmem
    rcases mem_rules_under hmem with hown | hinherited
    · exact (groups_of_mem_ownRules hown).1
    · exact hparent.groups_eq rule hinherited
  case two_le_groups =>
    intro rule hmem
    rcases mem_rules_under hmem with hown | hinherited
    · exact (groups_of_mem_ownRules hown).2
    · exact hparent.two_le_groups rule hinherited
  case closes => exact fun rule hmem hkind => h.closes ⟨rule, hmem, hkind⟩

end LanguageDecl

namespace Registry

variable {registry later start : Registry} {table : LanguageTable}
  {declarations : List LanguageDecl}

/-! ## Registries -/

/-- Whether all rule sets of a registry are well-formed and each extension leads to a registered
language. -/
structure WellFormed (registry : Registry) : Prop where
  sets : ∀ id set, registry.find? id = some set → set.WellFormed
  extensions : ∀ key id, registry.extensions.lookup key = some id → registry.contains id = true

theorem WellFormed.empty : ({ } : Registry).WellFormed := by
  constructor <;> simp [find?]

/-- A declaration with ids claims its extensions for one of them. -/
theorem mem_ids_of_mem_claimed {decl : LanguageDecl} {key id : String} (hids : decl.ids ≠ [])
    (h : (key, id) ∈ claimed decl) : id ∈ decl.ids := by
  obtain ⟨extension, -, heq⟩ := List.mem_map.mp h
  obtain ⟨main, others, hcons⟩ := List.exists_cons_of_ne_nil hids
  obtain ⟨-, rfl⟩ := Prod.mk.inj heq
  rw [hcons, List.headD_cons]
  exact List.mem_cons_self

section

variable [Pattern.Compiler]

/-- Declarations that are in order one behind the other, laid over a well-formed registry. -/
theorem WellFormed.setUnder (h : registry.WellFormed)
    (hadmits : ∀ before decl after, declarations = before ++ decl :: after →
      registry.Admits before decl) {id : String} {set : RuleSet}
    (hset : registry.setUnder declarations.reverse id = some set) : set.WellFormed := by
  induction declarations using List.reverseRecOn generalizing id set with
  | nil => exact h.sets id set hset
  | append_singleton declarations decl ih =>
      obtain ⟨hbefore, hlast⟩ := forall_split_concat.mp hadmits
      rw [List.reverse_append, List.reverse_singleton, List.singleton_append,
        Registry.setUnder] at hset
      split at hset
      next =>
        obtain rfl := Option.some.inj hset
        refine LanguageDecl.wellFormed_under ?_ hlast.isSound
        cases hparent : decl.parent.bind (registry.setUnder declarations.reverse) with
        | none => exact .empty
        | some parent =>
            obtain ⟨language, -, hlanguage⟩ := Option.bind_eq_some_iff.mp hparent
            exact ih hbefore hlanguage
      next => exact ih hbefore hset

/-- The step: a table is merged into a well-formed registry, if it can be. -/
theorem WellFormed.merge (h : registry.WellFormed) (hmerge : registry.merge table = .ok later) :
    later.WellFormed := by
  have hadmits := (exists_merge_iff.mp ⟨later, hmerge⟩).declarations
  obtain ⟨staged, hstaged, rfl, -⟩ := merge_eq_ok_iff.mp hmerge
  have hholds := (foldlM_add registry table.languages).2 staged hstaged
  constructor
  case sets =>
    intro id set hset
    rw [find?_withStaged hholds] at hset
    exact h.setUnder hadmits hset
  case extensions =>
    intro key id hlookup
    rw [contains_withStaged_iff hholds]
    rw [(extends_of_merge hmerge).lookup_extensions, Option.or_eq_some_iff] at hlookup
    rcases hlookup with hclaimed | ⟨-, hbefore⟩
    · left
      obtain ⟨decl, hdecl, hmem⟩ :=
        List.mem_flatMap.mp (List.mem_reverse.mp (mem_of_lookup hclaimed))
      obtain ⟨before, after, hsplit⟩ := List.append_of_mem hdecl
      exact ⟨decl, hdecl, mem_ids_of_mem_claimed (hadmits before decl after hsplit).ids_ne hmem⟩
    · exact Or.inr (h.extensions key id hbefore)

theorem WellFormed.extend (h : registry.WellFormed) (extension : Extension) :
    (registry.extend extension).WellFormed := by
  rcases registry.extend_cases extension with heq | ⟨table, -, hmerge⟩
  · rw [heq]
    exact h
  · exact h.merge hmerge

/-- The run: tables are merged into a well-formed registry one after the other, and those that
cannot be are left out. -/
theorem WellFormed.extendAll (h : registry.WellFormed) (extensions : List Extension) :
    (registry.extendAll extensions).WellFormed := by
  induction extensions generalizing registry with
  | nil => exact h
  | cons extension extensions ih => exact ih (h.extend extension)

theorem IsLoaded.wellFormed (h : start.IsLoaded) : start.WellFormed := by
  obtain ⟨table, htable⟩ := h.exists_ofTable
  exact WellFormed.empty.merge (merge_of_ofTable htable).1

/-- However a loaded registry is extended, by tables that are merged and by others that fail: all
its rule sets are well-formed, every extension leads to a registered language, and so does every
path whose language is known by its extension. -/
theorem wellFormed_extendAll_of_loaded (hstart : start.IsLoaded) (extensions : List Extension) :
    (start.extendAll extensions).WellFormed ∧
      ∀ path id, (start.extendAll extensions).languageOf? path = some id →
        (start.extendAll extensions).contains id = true := by
  have hreached : (start.extendAll extensions).WellFormed := hstart.wellFormed.extendAll extensions
  refine ⟨hreached, fun path id hlanguage => ?_⟩
  obtain ⟨extension, -, hlookup⟩ := Option.bind_eq_some_iff.mp hlanguage
  exact hreached.extensions _ id hlookup

end

/-- A table with a language that has a rule for the end of a block and a token for it. -/
def closingTable : String :=
  "fallback='a'\n[[language]]\nids=['a']\nblock_end='^(.*)([*]/)$'\nblock_close='*/'\n"

/-- A second language takes that rule over; in between, two tables fail, one for a pattern with one
group and one for a closing token that is missing. -/
def closingChanges : List Extension := [
  .text "[[language]]\nids=['a']\nblock_end='^(.*)$'\nblock_close='*/'\n",
  .text "[[language]]\nids=['c']\nblock_end='^(.*)([*]/)$'\n",
  .text "[[language]]\nids=['b']\nextends='a'\nextensions=['.X']\nsingle_line=['^(;)(.*)$']\n"]

/-- The rules of the second language are sorted with the one that is taken over, and the extension
of the language leads to it. -/
theorem wellFormed_extendAll_of_loaded_closing :
    ∃ start, ofText closingTable = .ok start ∧
      let registry := start.extendAll closingChanges
      registry.languageOf? "main.x" = some "b" ∧ registry.contains "b" = true ∧
        ∃ set, registry.find? "b" = some set ∧ set.WellFormed ∧
          set.rules.map Rule.kind = [.singleLine, .blockEnd] := by
  have hchecks : (ofText closingTable).toOption.any (fun start =>
      let registry := start.extendAll closingChanges
      registry.languageOf? "main.x" == some "b" &&
        ((registry.find? "b").map fun set => set.rules.map Rule.kind) ==
          some [.singleLine, .blockEnd]) = true := by decide +kernel
  cases hstart : ofText closingTable with
  | error failure =>
      rw [hstart] at hchecks
      cases hchecks
  | ok start =>
      rw [hstart] at hchecks
      simp only [Except.toOption, Option.any_some, Bool.and_eq_true, beq_iff_eq,
        Option.map_eq_some_iff] at hchecks
      obtain ⟨hlanguage, set, hset, hkinds⟩ := hchecks
      obtain ⟨hreached, hcontains⟩ :=
        wellFormed_extendAll_of_loaded (Or.inr ⟨closingTable, hstart⟩) closingChanges
      exact ⟨start, rfl, hlanguage, hcontains _ _ hlanguage, set, hset, hreached.sets _ _ hset,
        hkinds⟩

end Registry

end Marginalia
