import Marginalia.Proofs.Language.Inheritance

/-! # The language of an extension

An extension belongs to the last declaration that claims it, over all tables that were merged. A
declaration claims extensions in any spelling, with points in front and in any mixture of cases, and
a path may spell its extension in any mixture of cases as well.
-/

namespace Marginalia

namespace LanguageDecl

/-- Whether a declaration lists an extension that is the given one but for points in front of it and
for cases. -/
def Claims (decl : LanguageDecl) (key : String) : Prop :=
  ∃ extension ∈ decl.extensions, Registry.extensionKey extension = key

/-- Whether a language is the main one of the last declaration that claims an extension. -/
def ClaimedLast (declarations : List LanguageDecl) (key language : String) : Prop :=
  ∃ before decl after, declarations = before ++ decl :: after ∧ decl.Claims key ∧
    (∀ other ∈ after, ¬ other.Claims key) ∧ decl.ids.head? = some language

variable {declarations : List LanguageDecl} {decl : LanguageDecl} {key language : String}

theorem claims_iff : decl.Claims key ↔ key ∈ decl.extensions.map Registry.extensionKey :=
  List.mem_map.symm

theorem claimedLast_concat :
    ClaimedLast (declarations ++ [decl]) key language ↔
      (decl.Claims key ∧ decl.ids.head? = some language) ∨
      (¬ decl.Claims key ∧ ClaimedLast declarations key language) := by
  constructor
  · rintro ⟨before, last, after, hsplit, hclaims, hafter, hlanguage⟩
    -- The declaration at the end is the last one that claims, or one behind it.
    rcases after.eq_nil_or_concat with rfl | ⟨after, other, rfl⟩
    · obtain ⟨rfl, hsame⟩ := List.append_inj' hsplit rfl
      cases hsame
      exact Or.inl ⟨hclaims, hlanguage⟩
    · rw [List.concat_eq_append, ← List.cons_append, ← List.append_assoc] at hsplit
      obtain ⟨rfl, hsame⟩ := List.append_inj' hsplit rfl
      cases hsame
      rw [List.concat_eq_append, List.forall_mem_append, List.forall_mem_singleton] at hafter
      exact Or.inr ⟨hafter.2, before, last, after, rfl, hclaims, hafter.1, hlanguage⟩
  · rintro (⟨hclaims, hlanguage⟩ | ⟨hnot, before, last, after, rfl, hclaims, hafter, hlanguage⟩)
    · exact ⟨declarations, decl, [], rfl, hclaims, by simp, hlanguage⟩
    · refine ⟨before, last, after ++ [decl], by simp, hclaims, ?_, hlanguage⟩
      rw [List.forall_mem_append, List.forall_mem_singleton]
      exact ⟨hafter, hnot⟩

/-- What a declaration claims stands before what others claimed. -/
theorem lookup_claimed_append {others : List (String × String)} :
    ((Registry.claimed decl).reverse ++ others).lookup key =
      if key ∈ decl.extensions.map Registry.extensionKey then some (decl.ids.headD "")
      else others.lookup key := by
  rw [← lookup_reverse_map_append, List.map_map]
  rfl

theorem lookup_claimed_eq_some_iff (h : ∀ decl ∈ declarations, decl.ids ≠ []) :
    (declarations.flatMap Registry.claimed).reverse.lookup key = some language ↔
      ClaimedLast declarations key language := by
  induction declarations using List.reverseRecOn with
  | nil => simp [ClaimedLast]
  | append_singleton declarations decl ih =>
      rw [List.forall_mem_append, List.forall_mem_singleton] at h
      rw [List.flatMap_append, List.flatMap_singleton, List.reverse_append, lookup_claimed_append,
        claimedLast_concat, claims_iff, ← ih h.1]
      split
      next hclaims =>
        obtain ⟨main, others, hids⟩ := List.exists_cons_of_ne_nil h.2
        simp [hclaims, hids]
      next hnot => simp [hnot]

theorem lookup_claimed_eq_none_iff :
    (declarations.flatMap Registry.claimed).reverse.lookup key = none ↔
      ∀ decl ∈ declarations, ¬ decl.Claims key := by
  induction declarations using List.reverseRecOn with
  | nil => simp
  | append_singleton declarations decl ih =>
      rw [List.flatMap_append, List.flatMap_singleton, List.reverse_append, lookup_claimed_append,
        List.forall_mem_append, List.forall_mem_singleton, claims_iff, ← ih]
      split
      next hclaims => simp [hclaims]
      next hnot => simp [hnot]

end LanguageDecl

namespace Registry

variable {registry later start : Registry} {table first : LanguageTable}
  {declarations : List LanguageDecl} {path language : String}

/-- Whether the extensions of a registry are those that declarations claim, each of which has an id,
and the last ones count. -/
structure Indexes (registry : Registry) (declarations : List LanguageDecl) : Prop where
  lookup_eq : ∀ key,
    registry.extensions.lookup key = (declarations.flatMap claimed).reverse.lookup key
  ids_ne : ∀ decl ∈ declarations, decl.ids ≠ []

theorem Indexes.empty : ({ } : Registry).Indexes [] := ⟨fun _ => rfl, by simp⟩

theorem Indexes.languageOf?_eq_some_iff (h : registry.Indexes declarations) :
    registry.languageOf? path = some language ↔ ∃ extension,
      Path.extension? path = some extension ∧
        LanguageDecl.ClaimedLast declarations (Text.lower extension) language := by
  rw [languageOf?, Option.bind_eq_some_iff]
  simp only [h.lookup_eq, LanguageDecl.lookup_claimed_eq_some_iff h.ids_ne]

theorem Indexes.languageOf?_eq_none_iff (h : registry.Indexes declarations) :
    registry.languageOf? path = none ↔ ∀ extension, Path.extension? path = some extension →
      ∀ decl ∈ declarations, ¬ decl.Claims (Text.lower extension) := by
  rw [languageOf?, Option.bind_eq_none_iff]
  simp only [h.lookup_eq, LanguageDecl.lookup_claimed_eq_none_iff]

/-- Of the extension of a path only its form in lowercase counts. -/
theorem languageOf?_congr {other : String}
    (h : (Path.extension? path).map Text.lower = (Path.extension? other).map Text.lower) :
    registry.languageOf? path = registry.languageOf? other := by
  have hlookup (path : String) : registry.languageOf? path =
      ((Path.extension? path).map Text.lower).bind (registry.extensions.lookup ·) := by
    rw [languageOf?, Option.bind_map]
    rfl
  rw [hlookup, hlookup, h]

section

variable [Pattern.Compiler]

/-- The step: the declarations of one more table come behind the others. -/
theorem Indexes.merge (h : registry.Indexes declarations)
    (hmerge : registry.merge table = .ok later) :
    later.Indexes (declarations ++ table.languages) := by
  have hadmits := (exists_merge_iff.mp ⟨later, hmerge⟩).declarations
  constructor
  case lookup_eq =>
    intro key
    rw [(extends_of_merge hmerge).lookup_extensions, h.lookup_eq, List.flatMap_append,
      List.reverse_append, List.lookup_append]
  case ids_ne =>
    rw [List.forall_mem_append]
    refine ⟨h.ids_ne, fun decl hmem => ?_⟩
    obtain ⟨before, after, hsplit⟩ := List.append_of_mem hmem
    exact (hadmits before decl after hsplit).ids_ne

/-- The run: tables that are refused claim nothing. -/
theorem Indexes.extendAll (h : registry.Indexes declarations) (extensions : List Extension) :
    (registry.extendAll extensions).Indexes
      (declarations ++ (registry.accepted extensions).flatMap (·.languages)) := by
  induction extensions generalizing registry declarations with
  | nil =>
      rw [accepted, List.flatMap_nil, List.append_nil]
      exact h
  | cons extension extensions ih =>
      change ((registry.extend extension).extendAll extensions).Indexes _
      rw [accepted, List.flatMap_append, ← List.append_assoc]
      rcases registry.merged?_cases extension with ⟨hnone, hsame⟩ | ⟨table, hsome, hmerge⟩
      · rw [hnone, hsame, Option.toList_none, List.flatMap_nil, List.append_nil]
        exact ih h
      · rw [hsome, Option.toList_some, List.flatMap_singleton]
        exact ih (h.merge hmerge)

theorem indexes_of_loaded (hstart : ofTable first = .ok start) (extensions : List Extension) :
    (start.extendAll extensions).Indexes
      ((first :: start.accepted extensions).flatMap (·.languages)) :=
  (Indexes.empty.merge (merge_of_ofTable hstart).1).extendAll extensions

/-- A table that is refused might as well not have been there. -/
theorem extendAll_of_refused {before after : List Extension} {extension : Extension}
    {failure : Failure}
    (h : (registry.extendAll before).mergeExtension extension = .error failure) :
    registry.extendAll (before ++ extension :: after) = registry.extendAll (before ++ after) := by
  have hsame : (registry.extendAll before).extend extension = registry.extendAll before := by
    rw [extend, h]
  rw [extendAll, extendAll, List.foldl_append, List.foldl_append, List.foldl_cons]
  exact congrArg (List.foldl extend · after) hsame

end

end Registry

end Marginalia
