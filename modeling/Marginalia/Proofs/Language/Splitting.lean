import Marginalia.Proofs.Language.Fallback

/-! # A table in two files

The declarations of a table can be split between two files that are merged one after the other. A
parent that stands in the first file is found among the earlier declarations when there is one file
and in the registry when there are two, and it is the same rule set either way. What is asked of
the first file alone is only that the fallback language it names is known by then.
-/

namespace Marginalia

/-- A table with another one behind it: the fallback language of the second counts, if it names
one, and everything else adds up. -/
def LanguageTable.append (first second : LanguageTable) : LanguageTable where
  fallback := second.fallback.or first.fallback
  commonMarkers := first.commonMarkers ++ second.commonMarkers
  commonContains := first.commonContains ++ second.commonContains
  languages := first.languages ++ second.languages

namespace Registry

variable {registry middle later : Registry} {first second table : LanguageTable}
  {staged earlier : Staged}

/-- A registry whose fallback language is registered, if there is one. -/
def checked (registry : Registry) : Except Failure Registry :=
  if registry.fallback != "" && !registry.contains registry.fallback then
    .error (.table (.undefinedFallback registry.fallback))
  else .ok registry

/-- The declarations that were resolved, over those that were resolved in an earlier table. -/
def Staged.over (staged earlier : Staged) : Staged where
  sets := staged.sets ++ earlier.sets
  extensions := staged.extensions ++ earlier.extensions

/-- A parent that was resolved in an earlier table is registered by then. -/
theorem Staged.parent_over (registry : Registry) (staged earlier : Staged) (first : LanguageTable)
    (language : String) (parent : Option String) :
    (staged.over earlier).parent registry language parent =
      staged.parent (registry.withStaged earlier first) language parent := by
  cases parent with
  | none => rfl
  | some parent =>
      have hfind : ((staged.over earlier).sets.lookup parent).or (registry.find? parent) =
          (staged.sets.lookup parent).or ((registry.withStaged earlier first).find? parent) := by
        simp only [Staged.over, find?, withStaged, List.lookup_append, Option.or_assoc]
      simp only [Staged.parent, hfind]

theorem withStaged_over (registry : Registry) (staged earlier : Staged) :
    registry.withStaged (staged.over earlier) (first.append second) =
      (registry.withStaged earlier first).withStaged staged second := by
  simp only [withStaged, Staged.over, LanguageTable.append, List.append_assoc, Option.getD_or]

section

variable [Pattern.Compiler]

theorem merge_eq_bind (registry : Registry) (table : LanguageTable) :
    registry.merge table =
      table.languages.foldlM (Staged.add registry) { } >>= fun staged =>
        (registry.withStaged staged table).checked := rfl

/-- The step: a declaration is resolved to the same over the earlier ones as behind them. -/
theorem Staged.add_over (registry : Registry) (staged earlier : Staged) (first : LanguageTable)
    (decl : LanguageDecl) :
    Staged.add registry (staged.over earlier) decl =
      (Staged.add (registry.withStaged earlier first) staged decl).map (·.over earlier) := by
  unfold Staged.add
  split
  next => rfl
  next main others _ =>
    rw [Staged.parent_over registry staged earlier first]
    cases staged.parent (registry.withStaged earlier first) main decl.parent with
    | error failure => rfl
    | ok parent =>
        simp only [bind, Except.bind]
        cases decl.resolve parent with
        | error failure => rfl
        | ok set => simp [Staged.over, Except.map, pure, Except.pure]

/-- The run: so are all declarations of the second table. -/
theorem foldlM_add_over (registry : Registry) (staged earlier : Staged) (first : LanguageTable)
    (declarations : List LanguageDecl) :
    declarations.foldlM (Staged.add registry) (staged.over earlier) =
      (declarations.foldlM (Staged.add (registry.withStaged earlier first)) staged).map
        (·.over earlier) := by
  induction declarations generalizing staged with
  | nil => rfl
  | cons decl declarations ih =>
      rw [List.foldlM_cons, List.foldlM_cons, Staged.add_over registry staged earlier first]
      cases Staged.add (registry.withStaged earlier first) staged decl with
      | error failure => rfl
      | ok staged => exact ih staged

/-- Behind a table that is merged, the whole table comes to what the second one comes to, whether
that is a registry or a failure. -/
theorem merge_append (hfirst : registry.merge first = .ok middle) (second : LanguageTable) :
    registry.merge (first.append second) = middle.merge second := by
  obtain ⟨earlier, hearlier, rfl, -⟩ := merge_eq_ok_iff.mp hfirst
  rw [merge_eq_bind, merge_eq_bind, LanguageTable.append, List.foldlM_append, hearlier]
  change second.languages.foldlM (Staged.add registry) (({ } : Staged).over earlier) >>= _ = _
  rw [foldlM_add_over registry { } earlier first]
  cases second.languages.foldlM (Staged.add (registry.withStaged earlier first)) { } with
  | error failure => rfl
  | ok staged => exact congrArg checked (withStaged_over registry staged earlier)

/-- A table that can be merged as a whole has a first part that can be merged too, unless the
fallback language is not known yet. -/
theorem merge_eq_ok_or_of_append (h : registry.merge (first.append second) = .ok later) :
    (∃ middle, registry.merge first = .ok middle) ∨ registry.merge first =
      .error (.table (.undefinedFallback (first.fallback.getD registry.fallback))) := by
  rw [merge_eq_bind, LanguageTable.append, List.foldlM_append] at h
  rw [merge_eq_bind]
  cases hfirst : first.languages.foldlM (Staged.add registry) ({ } : Staged) with
  | error failure =>
      rw [hfirst] at h
      cases h
  | ok earlier =>
      change (∃ middle, (registry.withStaged earlier first).checked = .ok middle) ∨
        (registry.withStaged earlier first).checked = _
      unfold checked
      split
      · exact Or.inr rfl
      · exact Or.inl ⟨_, rfl⟩

/-- Splitting a table between two files makes no difference. Merging the two one after the other
gives a registry exactly when merging the whole table gives it and the first file can be merged;
and where the whole table can be merged the first file is refused for one reason only, that the
fallback language is not known yet. So the registry of two files is in every respect the one of the
whole table: it has the same ids, rule sets, extensions, fallback language and common markers, and
finds the same comments. -/
theorem merge_merge_iff_merge_append (registry later : Registry) (first second : LanguageTable) :
    ((∃ middle, registry.merge first = .ok middle ∧ middle.merge second = .ok later) ↔
      (∃ middle, registry.merge first = .ok middle) ∧
        registry.merge (first.append second) = .ok later) ∧
    (registry.merge (first.append second) = .ok later →
      ∀ failure, registry.merge first = .error failure →
        failure = .table (.undefinedFallback (first.fallback.getD registry.fallback))) := by
  refine ⟨⟨?_, ?_⟩, fun hwhole failure hrefused => ?_⟩
  · rintro ⟨middle, hfirst, hsecond⟩
    exact ⟨⟨middle, hfirst⟩, (merge_append hfirst second).trans hsecond⟩
  · rintro ⟨⟨middle, hfirst⟩, hwhole⟩
    exact ⟨middle, hfirst, (merge_append hfirst second).symm.trans hwhole⟩
  · rcases merge_eq_ok_or_of_append hwhole with ⟨middle, hfirst⟩ | hunknown
    · rw [hfirst] at hrefused
      cases hrefused
    · rw [hunknown] at hrefused
      exact (Except.error.inj hrefused).symm

end

/-- A registry with one language. -/
def singleRegistry : Registry where
  sets := [("a", { lineMarkers := ["#"] })]
  fallback := "a"

/-- A table that declares the language again, and claims an extension for it. -/
def frontTable : LanguageTable where
  languages := [{ ids := ["a"], lineMarkers := ["//"], extensions := ["x"] }]

/-- A table with a language that takes over from it and is the fallback language from there on; then
the first language is declared once more. -/
def backTable : LanguageTable where
  fallback := some "b"
  languages := [
    { ids := ["b"], parent := some "a", extensions := [".X"] },
    { ids := ["a"], parent := some "b", trailingMarkers := ["*/"] }]

/-- In one file or in two, the second language takes over what the first file has for the first one,
and not what the registry had for it. -/
theorem merge_merge_iff_merge_append_border :
    ∃ middle later, singleRegistry.merge frontTable = .ok middle ∧
      middle.merge backTable = .ok later ∧
      singleRegistry.merge (frontTable.append backTable) = .ok later ∧
      later.find? "b" = some { lineMarkers := ["//"] } ∧
      later.find? "a" = some { lineMarkers := ["//"], trailingMarkers := ["*/"] } ∧
      later.languageOf? "main.x" = some "b" ∧ later.fallback = "b" := by
  have hchecks : ((singleRegistry.merge frontTable).toOption.any fun middle =>
      (middle.merge backTable).toOption.any fun later =>
        later.find? "b" == some { lineMarkers := ["//"] } &&
          later.find? "a" == some { lineMarkers := ["//"], trailingMarkers := ["*/"] } &&
          later.languageOf? "main.x" == some "b" && later.fallback == "b") = true := by
    decide +kernel
  cases hfront : singleRegistry.merge frontTable with
  | error failure =>
      rw [hfront] at hchecks
      cases hchecks
  | ok middle =>
      rw [hfront, Except.toOption, Option.any_some] at hchecks
      cases hback : middle.merge backTable with
      | error failure =>
          rw [hback] at hchecks
          cases hchecks
      | ok later =>
          rw [hback] at hchecks
          simp only [Except.toOption, Option.any_some, Bool.and_eq_true, beq_iff_eq] at hchecks
          obtain ⟨⟨⟨hsecond, hfirst⟩, hlanguage⟩, hfallback⟩ := hchecks
          have hborder := merge_merge_iff_merge_append singleRegistry later frontTable backTable
          obtain ⟨-, hwhole⟩ := hborder.1.mp ⟨middle, hfront, hback⟩
          exact ⟨middle, later, rfl, hback, hwhole, hsecond, hfirst, hlanguage, hfallback⟩

-- A first file that names a fallback language which only the second one declares.
example :
    let first : LanguageTable := { fallback := some "b", languages := [{ ids := ["a"] }] }
    let second : LanguageTable := { languages := [{ ids := ["b"], parent := some "a" }] }
    (({ } : Registry).merge first).isOk = false ∧
      (({ } : Registry).merge (first.append second)).isOk = true := by
  decide +kernel

end Registry

end Marginalia
