import Marginalia.Proofs.Language.Extensions
import Marginalia.Proofs.Workflow.Directory

/-! # The files that the translation of a directory goes at

The translation of a directory goes at the files whose extension belongs to a language, and at no
others. It goes at them in the order of the walk, at each from where the one before left the files
and the workflow, until it finds the session cancelled.
-/

namespace Marginalia.Workflow

variable {σ : Type} {workflow : Workflow σ} {tree : FileTree} {path source : String}
  {sources visits : List String} {directory : Location} {dryRun : Bool}

/-- A file that a run goes at, with the files and the workflow as they are then. -/
structure Attempt (σ : Type) where
  source : String
  tree : FileTree
  workflow : Workflow σ

/-- What comes of an attempt. -/
def Attempt.outcome (attempt : Attempt σ) (dryRun : Bool) : Outcome σ FileReport :=
  attempt.workflow.translateFile attempt.tree { input := attempt.source, dryRun }

/-- The attempts of a run over files. -/
def attempts (dryRun : Bool) (workflow : Workflow σ) (tree : FileTree) :
    List String → List (Attempt σ)
  | [] => []
  | source :: sources =>
    if workflow.session.cancelled then []
    else
      let attempt : Attempt σ := ⟨source, tree, workflow⟩
      let outcome := attempt.outcome dryRun
      attempt :: attempts dryRun outcome.workflow outcome.tree sources

/-! ## Runs over files -/

theorem attempts_of_cancelled (h : workflow.session.cancelled = true) :
    workflow.attempts dryRun tree sources = [] := by
  cases sources with
  | nil => rfl
  | cons source sources => rw [attempts, if_pos h]

theorem attempts_cons (h : workflow.session.cancelled = false) :
    workflow.attempts dryRun tree (source :: sources) =
      let outcome := workflow.translateFile tree { input := source, dryRun }
      ⟨source, tree, workflow⟩ :: outcome.workflow.attempts dryRun outcome.tree sources := by
  rw [attempts, if_neg (by simp [h])]
  rfl

/-- The reports of a run are those of its attempts. -/
theorem translateFiles_eq_filterMap_attempts :
    (workflow.translateFiles dryRun tree sources).1 =
      (workflow.attempts dryRun tree sources).filterMap fun attempt =>
        (attempt.outcome dryRun).result.toOption := by
  induction sources generalizing workflow tree with
  | nil => rfl
  | cons source sources ih =>
      cases hcancelled : workflow.session.cancelled with
      | true =>
          rw [translateFiles_of_cancelled hcancelled, attempts_of_cancelled hcancelled,
            List.filterMap_nil]
      | false =>
          rw [translateFiles_cons hcancelled, attempts_cons hcancelled]
          dsimp only
          rw [ih, List.filterMap_cons]
          simp only [Attempt.outcome]
          cases (workflow.translateFile tree { input := source, dryRun }).result <;> rfl

/-- A run leaves what its last attempt leaves. -/
theorem translateFiles_eq_getLast?_attempts :
    (workflow.translateFiles dryRun tree sources).2 =
      ((workflow.attempts dryRun tree sources).getLast?.map fun attempt =>
        ((attempt.outcome dryRun).tree, (attempt.outcome dryRun).workflow)).getD
          (tree, workflow) := by
  induction sources generalizing workflow tree with
  | nil => rfl
  | cons source sources ih =>
      cases hcancelled : workflow.session.cancelled with
      | true =>
          rw [translateFiles_of_cancelled hcancelled, attempts_of_cancelled hcancelled]
          rfl
      | false =>
          rw [translateFiles_cons hcancelled, attempts_cons hcancelled]
          dsimp only
          rw [ih, List.getLast?_cons, Option.map_some, Option.getD_some]
          cases List.getLast? _ <;> rfl

/-- The run: the attempts are at the first of the files, and at all unless the session was
cancelled. -/
theorem exists_map_source_attempts (workflow : Workflow σ) (tree : FileTree) (dryRun : Bool)
    (sources : List String) :
    ∃ rest, sources = (workflow.attempts dryRun tree sources).map Attempt.source ++ rest ∧
      (rest ≠ [] → (workflow.translateFiles dryRun tree sources).2.2.session.cancelled = true) := by
  induction sources generalizing workflow tree with
  | nil => exact ⟨[], rfl, fun hne => absurd rfl hne⟩
  | cons source sources ih =>
      cases hcancelled : workflow.session.cancelled with
      | true =>
          -- The file and all that come behind it are left out.
          refine ⟨source :: sources, by rw [attempts_of_cancelled hcancelled]; rfl, fun _ => ?_⟩
          rw [translateFiles_of_cancelled hcancelled]
          exact hcancelled
      | false =>
          rw [attempts_cons hcancelled, translateFiles_cons hcancelled]
          let outcome := workflow.translateFile tree { input := source, dryRun }
          obtain ⟨rest, hsources, hrest⟩ := ih outcome.workflow outcome.tree
          exact ⟨rest, congrArg (source :: ·) hsources, hrest⟩

theorem not_cancelled_of_mem_attempts {attempt : Attempt σ}
    (h : attempt ∈ workflow.attempts dryRun tree sources) :
    attempt.workflow.session.cancelled = false := by
  induction sources generalizing workflow tree with
  | nil => cases h
  | cons source sources ih =>
      cases hcancelled : workflow.session.cancelled with
      | true =>
          rw [attempts_of_cancelled hcancelled] at h
          cases h
      | false =>
          rw [attempts_cons hcancelled] at h
          rcases List.mem_cons.mp h with rfl | h
          · exact hcancelled
          · exact ih h

/-! ## Directories -/

/-- Whether a path is that of a file below a directory, with no hidden name on the way, whose
language is known without being asked for. -/
def Wanted (workflow : Workflow σ) (tree : FileTree) (path : String) (directory : Location)
    (source : String) : Prop :=
  ∃ names content language, tree.entry? (directory ++ names) = some (.file content) ∧
    (∀ name ∈ names, ¬ FileTree.IsHidden name) ∧ source = Path.joinAll path names ∧
    workflow.languageFor source none = .ok language

/-- Whether the translation of a directory, with a walk that came upon certain files, went at some
of them: at those that are wanted, each once, up to a cancellation. -/
structure GoesAt (workflow : Workflow σ) (tree : FileTree) (path : String) (directory : Location)
    (dryRun : Bool) (outcome : Outcome σ (List FileReport)) (visits sources : List String) :
    Prop where
  mem_iff : ∀ source, source ∈ sources ↔ workflow.Wanted tree path directory source
  nodup : sources.Nodup
  sublist : sources.Sublist visits
  /-- What is reported are the attempts at these files. -/
  result_eq : outcome.result =
    .ok ((workflow.attempts dryRun tree sources).filterMap fun attempt =>
      (attempt.outcome dryRun).result.toOption)
  /-- What is left is what the last attempt leaves. -/
  left_eq : (outcome.tree, outcome.workflow) =
    ((workflow.attempts dryRun tree sources).getLast?.map fun attempt =>
      ((attempt.outcome dryRun).tree, (attempt.outcome dryRun).workflow)).getD (tree, workflow)
  attempted : ∃ rest,
    sources = (workflow.attempts dryRun tree sources).map Attempt.source ++ rest ∧
      (rest ≠ [] → outcome.workflow.session.cancelled = true)
  not_cancelled : ∀ attempt ∈ workflow.attempts dryRun tree sources,
    attempt.workflow.session.cancelled = false

theorem languageFor_none_eq_ok_iff {language : String} :
    workflow.languageFor path none = .ok language ↔
      workflow.registry.languageOf? path = some language := by
  unfold languageFor
  cases workflow.registry.languageOf? path <;> simp

theorem wanted_iff (htree : tree.Proper) (hpath : tree.locate path = .ok directory)
    (hdirectory : tree.entry? directory = some .directory)
    (hvisits : visits.Perm (tree.visibleFiles path)) :
    workflow.Wanted tree path directory source ↔
      source ∈ visits ∧ (workflow.registry.languageOf? source).isSome = true := by
  rw [mem_visits_iff hpath hvisits, Option.isSome_iff_exists]
  constructor
  · rintro ⟨names, content, language, hentry, hvisible, rfl, hlanguage⟩
    -- The file cannot be the directory itself, so there is a name on the way to it.
    have hne : names ≠ [] := by
      rintro rfl
      rw [List.append_nil, hdirectory] at hentry
      cases hentry
    exact ⟨⟨names, FileTree.mem_visited_iff.mpr
      ⟨hne, hvisible, content, FileTree.mem_files_of_entry? hentry⟩, rfl⟩,
      language, languageFor_none_eq_ok_iff.mp hlanguage⟩
  · rintro ⟨⟨names, hvisited, rfl⟩, language, hlanguage⟩
    obtain ⟨-, hvisible, content, hmem⟩ := FileTree.mem_visited_iff.mp hvisited
    exact ⟨names, content, language, htree.entry?_of_mem hmem, hvisible, rfl,
      languageFor_none_eq_ok_iff.mpr hlanguage⟩

/-- The files of a walk whose language is known. -/
def knownAmong (workflow : Workflow σ) (visits : List String) : List String :=
  visits.filter fun source => (workflow.registry.languageOf? source).isSome

theorem translateVisited_of_directory (hpath : tree.locate path = .ok directory)
    (hdirectory : tree.entry? directory = some .directory) :
    workflow.translateVisited tree path dryRun visits =
      let run := workflow.translateFiles dryRun tree (workflow.knownAmong visits)
      ⟨.ok run.1, run.2.1, run.2.2⟩ := by
  have hisDirectory : tree.isDirectory path = true := by
    simp [FileTree.isDirectory, FileTree.find?, hpath, hdirectory]
  rw [translateVisited, if_pos hisDirectory]
  rfl

theorem goesAt_knownAmong (workflow : Workflow σ) (dryRun : Bool) (htree : tree.Proper)
    (hpath : tree.locate path = .ok directory)
    (hdirectory : tree.entry? directory = some .directory)
    (hvisits : visits.Perm (tree.visibleFiles path)) :
    workflow.GoesAt tree path directory dryRun
      (workflow.translateVisited tree path dryRun visits) visits (workflow.knownAmong visits) := by
  rw [translateVisited_of_directory hpath hdirectory]
  constructor
  case mem_iff =>
    intro source
    rw [wanted_iff htree hpath hdirectory hvisits, knownAmong, List.mem_filter]
  case nodup =>
    exact (hvisits.nodup_iff.mpr (.of_map _ (htree.nodup_locate_visibleFiles hpath))).filter _
  case sublist => exact List.filter_sublist
  case result_eq => exact congrArg Except.ok translateFiles_eq_filterMap_attempts
  case left_eq => exact translateFiles_eq_getLast?_attempts
  case attempted => exact exists_map_source_attempts workflow tree dryRun _
  case not_cancelled => exact fun attempt => not_cancelled_of_mem_attempts

/-- In a registry that was loaded and extended an extension belongs to the main language of the last
declaration that claims it, over all tables that were merged, and a path without an extension or
with one that nobody claims has no language; a table that is refused makes no difference. So paths
whose extensions are the same in lowercase have the same language. Below a directory the files that
are gone at are those, of the ones that are not hidden, whose language is known without being asked
for: all of them, each once and in the order of the walk, or the first of them when the session is
cancelled on the way. -/
theorem goesAt_of_loaded [Pattern.Compiler] {first : LanguageTable} {start : Registry}
    (hstart : Registry.ofTable first = .ok start) (extensions : List Registry.Extension) :
    let registry := start.extendAll extensions
    let declarations := (first :: start.accepted extensions).flatMap (·.languages)
    (∀ path language, registry.languageOf? path = some language ↔ ∃ extension,
      Path.extension? path = some extension ∧
        LanguageDecl.ClaimedLast declarations (Text.lower extension) language) ∧
    (∀ path, registry.languageOf? path = none ↔ ∀ extension,
      Path.extension? path = some extension →
        ∀ decl ∈ declarations, ¬ decl.Claims (Text.lower extension)) ∧
    (∀ before refused after failure, extensions = before ++ refused :: after →
      (start.extendAll before).mergeExtension refused = .error failure →
        registry = start.extendAll (before ++ after)) ∧
    (∀ path other,
      (Path.extension? path).map Text.lower = (Path.extension? other).map Text.lower →
        registry.languageOf? path = registry.languageOf? other) ∧
    ∀ (σ : Type) (workflow : Workflow σ) (tree : FileTree) (path : String) (directory : Location)
      (dryRun : Bool), tree.Proper → tree.locate path = .ok directory →
      tree.entry? directory = some .directory →
      (∃ sources, workflow.GoesAt tree path directory dryRun
        (workflow.translateDirectory tree path dryRun) (tree.visibleFiles path) sources) ∧
      ∀ visits : List String, visits.Perm (tree.visibleFiles path) →
        ∃ sources, workflow.GoesAt tree path directory dryRun
          (workflow.translateVisited tree path dryRun visits) visits sources := by
  intro registry declarations
  have hindexes : registry.Indexes declarations := Registry.indexes_of_loaded hstart extensions
  refine ⟨fun path language => hindexes.languageOf?_eq_some_iff,
    fun path => hindexes.languageOf?_eq_none_iff,
    fun before refused after failure hsplit hrefused => ?_,
    fun path other => Registry.languageOf?_congr,
    fun σ workflow tree path directory dryRun htree hpath hdirectory => ⟨?_, fun visits hvisits =>
      ?_⟩⟩
  · subst hsplit
    exact Registry.extendAll_of_refused hrefused
  · exact ⟨_, goesAt_knownAmong workflow dryRun htree hpath hdirectory (.refl _)⟩
  · exact ⟨_, goesAt_knownAmong workflow dryRun htree hpath hdirectory hvisits⟩

/-- Two languages that claim one extension in two spellings, the first of which claims another. -/
def spelledTable : LanguageTable where
  fallback := some "a"
  languages := [
    { ids := ["a"], extensions := [".C", "h"] },
    { ids := ["b"], extensions := ["..c"] }]

/-- A table that claims both extensions and is refused. -/
def orphanExtension : Registry.Extension :=
  .text "[[language]]\nids=['c']\nextends='d'\nextensions=['c', 'h']\n"

/-- A table that claims the other extension for a language with two ids. -/
def shoutedExtension : Registry.Extension :=
  .text "[[language]]\nids=['e', 'f']\nextensions=['.H']\n"

/-- The extensions belong to the last languages that claim them, in any spelling, and the directory
is gone through for the files with such an extension. -/
theorem goesAt_of_loaded_respelled :
    ∃ start sources, Registry.ofTable spelledTable = .ok start ∧
      let registry := start.extendAll [orphanExtension, shoutedExtension]
      let tables := spelledTable :: start.accepted [orphanExtension, shoutedExtension]
      registry.languageOf? "y.z.H" = some "e" ∧ registry.languageOf? "x.h" = some "e" ∧
      LanguageDecl.ClaimedLast (tables.flatMap (·.languages)) "h" "e" ∧
      registry.languageOf? ".h" = none ∧ registry = start.extendAll [shoutedExtension] ∧
      (failing registry).GoesAt mixedTree "src" ["src"] true
        ((failing registry).translateDirectory mixedTree "src" true)
        (mixedTree.visibleFiles "src") sources ∧
      "src/b.c" ∈ sources ∧ "src/README" ∉ sources := by
  have hchecks : (Registry.ofTable spelledTable).toOption.any (fun start =>
      let registry := start.extendAll [orphanExtension, shoutedExtension]
      registry.languageOf? "y.z.H" == some "e" &&
        (start.mergeExtension orphanExtension).toOption.isNone &&
        registry.languageOf? "src/b.c" == some "b" &&
        registry.languageOf? "src/README" == none) = true := by decide +kernel
  cases hstart : Registry.ofTable spelledTable with
  | error failure =>
      rw [hstart] at hchecks
      cases hchecks
  | ok start =>
      rw [hstart] at hchecks
      replace hchecks := Option.any_some.symm.trans hchecks
      simp only [Bool.and_eq_true, beq_iff_eq] at hchecks
      obtain ⟨⟨⟨hlanguage, hrefused⟩, hknown⟩, hunknown⟩ := hchecks
      obtain ⟨hsome, hnone, hsame, hcases, hgoes⟩ :=
        goesAt_of_loaded hstart [orphanExtension, shoutedExtension]
      obtain ⟨⟨sources, hsources⟩, -⟩ :=
        hgoes Unit (failing (start.extendAll [orphanExtension, shoutedExtension])) mixedTree "src"
          ["src"] true (by decide) locate_mixedTree (by decide +kernel)
      obtain ⟨extension, hextension, hlast⟩ := (hsome "y.z.H" "e").mp hlanguage
      have hlower : Text.lower extension = "h" := by
        have hspelled : Path.extension? "y.z.H" = some "H" := by decide +kernel
        cases hspelled.symm.trans hextension
        decide +kernel
      have hother := (hcases "x.h" "y.z.H" (by decide +kernel)).trans hlanguage
      have hpoint := (hnone ".h").mpr (by
        have hbare : Path.extension? ".h" = none := by decide +kernel
        simp [hbare])
      cases hfails : start.mergeExtension orphanExtension with
      | ok later =>
          rw [hfails] at hrefused
          cases hrefused
      | error failure =>
          have hdropped := hsame [] orphanExtension [shoutedExtension] failure rfl hfails
          refine ⟨start, sources, rfl, hlanguage, hother, hlower ▸ hlast, hpoint, hdropped,
            hsources, ?_, ?_⟩
          · refine (hsources.mem_iff _).mpr ⟨["b.c"], .binary [255], "b", by decide +kernel,
              by decide, by decide +kernel, ?_⟩
            rw [languageFor_none_eq_ok_iff]
            simp only [failing, hknown]
          · intro hmem
            obtain ⟨_, _, language, -, -, -, hlanguage⟩ := (hsources.mem_iff _).mp hmem
            rw [languageFor_none_eq_ok_iff] at hlanguage
            simp only [failing, hunknown] at hlanguage
            cases hlanguage

/-- The workflow whose provider fails on one comment, with its session cancelled beforehand. -/
def halted (registry : Registry) : Workflow Unit :=
  { failing registry with session := { (failing registry).session with cancelled := true } }

/-- A file whose language is known. -/
def soleTree : FileTree where
  files := [(["src", "a.c"], .text "// b\n")]

/-- In a session that is cancelled a wanted file is not gone at, so that it has no report, which it
would have on its own. -/
theorem not_attempted_of_halted :
    ∃ registry, Registry.builtin = .ok registry ∧
      (halted registry).Wanted soleTree "src" ["src"] "src/a.c" ∧
      ((halted registry).translateDirectory soleTree "src" false).result.toOption = some [] ∧
      (∀ sources, "src/a.c" ∉
        ((halted registry).attempts false soleTree sources).map Attempt.source) ∧
      ((halted registry).translateFile soleTree { input := "src/a.c" }).result.toOption =
        some ⟨"src/a.c", "c", { commentsFound := 1, cancelled := true }⟩ := by
  obtain ⟨registry, hbuiltin, hcheck⟩ := Registry.exists_builtin (fun registry =>
    registry.languageOf? "src/a.c" == some "c" &&
      ((halted registry).translateDirectory soleTree "src" false).result.toOption == some [] &&
      ((halted registry).translateFile soleTree { input := "src/a.c" }).result.toOption ==
        some ⟨"src/a.c", "c", { commentsFound := 1, cancelled := true }⟩) (by decide +kernel)
  simp only [Bool.and_eq_true, beq_iff_eq] at hcheck
  obtain ⟨⟨hlanguage, hdirectory⟩, hfile⟩ := hcheck
  refine ⟨registry, hbuiltin, ⟨["a.c"], .text "// b\n", "c", by decide +kernel, by decide,
    by decide +kernel, languageFor_none_eq_ok_iff.mpr hlanguage⟩, hdirectory, fun sources => ?_,
    hfile⟩
  rw [attempts_of_cancelled rfl]
  exact List.not_mem_nil

end Marginalia.Workflow
