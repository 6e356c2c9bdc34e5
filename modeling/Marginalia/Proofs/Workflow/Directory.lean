import Marginalia.Proofs.Workflow.Alone

/-! # A directory is translated as its files are alone

The files below a directory share a session, so what one file brings into the cache is there for the
next one. With a provider that answers by the key this does not show: each file comes out as if it
were brought to the provider itself, whatever was translated before. And as each file is written at
a place of its own, the order in which a walk comes upon the files makes no difference either.
-/

namespace Marginalia.Workflow

variable {σ τ : Type} {workflow : Workflow σ} {reference : Workflow τ}
  {answer : String → Except Failure Translation} {tree : FileTree} {path source : String}
  {sources : List String} {directory location : Location} {content : Content}

/-! ## Files one after the other -/

/-- Whether a change gives the files at some paths what they have when they are brought to the
provider itself, and leaves all others alone. -/
structure Rewrites (workflow : Workflow σ) (answer : String → Except Failure Translation)
    (tree : FileTree) (sources : List String) (change : Location → Content → Content) : Prop where
  at_source : ∀ source ∈ sources, ∀ location content, tree.FileAt source location content →
    change location content = (workflow.ownFile answer source content).2
  elsewhere : ∀ location, (∀ source ∈ sources, tree.locate source ≠ .ok location) →
    change location = id

theorem translateFiles_of_cancelled {dryRun : Bool} (h : workflow.session.cancelled = true) :
    workflow.translateFiles dryRun tree sources = ([], tree, workflow) := by
  cases sources with
  | nil => rfl
  | cons source sources => rw [translateFiles, if_pos h]

theorem not_cancelled_of_translateFiles {dryRun : Bool}
    (h : (workflow.translateFiles dryRun tree sources).2.2.session.cancelled = false) :
    workflow.session.cancelled = false := by
  by_contra hcancelled
  rw [Bool.not_eq_false] at hcancelled
  rw [translateFiles_of_cancelled hcancelled, hcancelled] at h
  cases h

theorem translateFiles_cons {dryRun : Bool} (h : workflow.session.cancelled = false) :
    workflow.translateFiles dryRun tree (source :: sources) =
      let outcome := workflow.translateFile tree { input := source, dryRun }
      let rest := outcome.workflow.translateFiles dryRun outcome.tree sources
      (outcome.result.toOption.toList ++ rest.1, rest.2) := by
  rw [translateFiles, if_neg (by simp [h])]
  dsimp only
  cases (workflow.translateFile tree { input := source, dryRun }).result <;> rfl

theorem locate_ne_of_nodup (hplaces : ((source :: sources).map tree.locate).Nodup)
    (hlocate : tree.locate source = .ok location) :
    ∀ other ∈ sources, tree.locate other ≠ .ok location := by
  intro other hother heq
  rw [List.map_cons, List.nodup_cons, hlocate, ← heq] at hplaces
  exact hplaces.1 (List.mem_map_of_mem hother)

/-- The change of one file and then those of the others, which are at other places. -/
theorem Rewrites.cons {first change : Location → Content → Content}
    (hplaces : ((source :: sources).map tree.locate).Nodup)
    (hfile : tree.FileAt source location content) (htree : tree.Proper)
    (hfirst : first location content = (reference.ownFile answer source content).2)
    (hkeeps : ∀ other, other ≠ location → first other = id)
    (h : reference.Rewrites answer (tree.mapContents first) sources change) :
    reference.Rewrites answer tree (source :: sources) fun place kept =>
      change place (first place kept) := by
  have hapart := locate_ne_of_nodup hplaces hfile.locate_eq
  constructor
  case at_source =>
    intro other hother place kept hat
    rcases List.mem_cons.mp hother with rfl | hother
    · obtain rfl := Except.ok.inj (hfile.locate_eq.symm.trans hat.locate_eq)
      obtain rfl := htree.content_unique hfile.mem hat.mem
      rw [hfirst, h.elsewhere location (by simpa using hapart), id]
    · have hne : place ≠ location := by
        rintro rfl
        exact hapart other hother hat.locate_eq
      have hlater := h.at_source other hother place _ hat.mapContents
      rw [hkeeps place hne] at hlater ⊢
      exact hlater
  case elsewhere =>
    intro place hplace
    have hne : place ≠ location := by
      rintro rfl
      exact hplace source List.mem_cons_self hfile.locate_eq
    have hlater := h.elsewhere place fun other hother => by
      simpa using hplace other (List.mem_cons_of_mem source hother)
    rw [hkeeps place hne, hlater]
    rfl

/-- The run over files: each comes out as the provider itself has it, whatever came before. -/
theorem Serves.translateFiles_eq (h : workflow.Serves reference answer) (htree : tree.Proper)
    (hfiles : ∀ source ∈ sources, ∃ location content, tree.FileAt source location content)
    (hplaces : (sources.map tree.locate).Nodup)
    (hcalm : (workflow.translateFiles false tree sources).2.2.session.cancelled = false) :
    (workflow.translateFiles false tree sources).1 =
        sources.filterMap (reference.ownReport? answer tree) ∧
      ∃ change, (workflow.translateFiles false tree sources).2.1 = tree.mapContents change ∧
        reference.Rewrites answer tree sources change := by
  induction sources generalizing workflow tree with
  | nil =>
      refine ⟨rfl, fun _ => id, FileTree.mapContents_id.symm, ?_, fun _ _ => rfl⟩
      intro source hsource
      cases hsource
  | cons source sources ih =>
      obtain ⟨location, content, hfile⟩ := hfiles source List.mem_cons_self
      have hbefore := not_cancelled_of_translateFiles hcalm
      rw [translateFiles_cons hbefore] at hcalm ⊢
      generalize houtcome : workflow.translateFile tree { input := source } = outcome
        at hcalm ⊢
      dsimp only at hcalm ⊢
      have hserves := h.translateFile tree { input := source }
      have hown := h.translateFile_eq htree hfile
      rw [houtcome] at hserves hown
      obtain ⟨hresult, hwritten⟩ := hown (not_cancelled_of_translateFiles hcalm)
      -- The file is written at its place, and the others are where they were.
      obtain ⟨first, hwrites, hfirst, hkeeps⟩ := htree.exists_withFile_eq hfile.mem
        (reference.ownFile answer source content).2
      rw [hwritten, hwrites] at hcalm ⊢
      have hplaces' : (sources.map (tree.mapContents first).locate).Nodup := by
        rw [List.map_congr_left fun other _ => FileTree.locate_mapContents]
        exact (List.nodup_cons.mp hplaces).2
      obtain ⟨hreports, change, hchange, hrewrites⟩ := ih hserves htree.mapContents
        (fun other hother => by
          obtain ⟨place, kept, hat⟩ := hfiles other (List.mem_cons_of_mem source hother)
          exact ⟨place, _, hat.mapContents⟩) hplaces' hcalm
      refine ⟨?_, _, ?_, hrewrites.cons hplaces hfile htree hfirst hkeeps⟩
      · have hothers : ∀ other ∈ sources,
            reference.ownReport? answer (tree.mapContents first) other =
              reference.ownReport? answer tree other := by
          intro other hother
          obtain ⟨place, kept, hat⟩ := hfiles other (List.mem_cons_of_mem source hother)
          have hne : place ≠ location := by
            rintro rfl
            exact locate_ne_of_nodup hplaces hfile.locate_eq other hother hat.locate_eq
          rw [ownReport?_of_fileAt htree hat,
            ownReport?_of_fileAt htree.mapContents hat.mapContents, hkeeps place hne, id]
        rw [hresult, hreports, List.filterMap_congr hothers, List.filterMap_cons,
          ownReport?_of_fileAt htree hfile]
        cases (reference.ownFile answer source content).1 <;> rfl
      · rw [hchange, FileTree.mapContents_mapContents]

theorem undisturbed_translateFiles {dryRun : Bool} (h : workflow.undisturbed = workflow) :
    (workflow.translateFiles dryRun tree sources).2.2.undisturbed =
      (workflow.translateFiles dryRun tree sources).2.2 := by
  induction sources generalizing workflow tree with
  | nil => exact h
  | cons source sources ih =>
      rw [translateFiles_cons (not_cancelled_of_undisturbed h)]
      exact ih (undisturbed_translateFile h tree { input := source, dryRun })

/-! ## A directory -/

/-- Translates the files of known languages below a directory in the order in which a walk has come
upon the files. -/
def translateVisited (workflow : Workflow σ) (tree : FileTree) (directory : String)
    (dryRun : Bool) (visits : List String) : Outcome σ (List FileReport) :=
  if tree.isDirectory directory then
    let paths := visits.filter fun path => (workflow.registry.languageOf? path).isSome
    let (reports, tree, workflow) := workflow.translateFiles dryRun tree paths
    ⟨.ok reports, tree, workflow⟩
  else ⟨.error (.setting (.notDirectory directory)), tree, workflow⟩

theorem undisturbed_translateVisited {dryRun : Bool} {visits : List String}
    (h : workflow.undisturbed = workflow) :
    (workflow.translateVisited tree path dryRun visits).workflow.undisturbed =
      (workflow.translateVisited tree path dryRun visits).workflow := by
  unfold translateVisited
  split
  next => exact undisturbed_translateFiles h
  next => exact h

theorem translateVisited_visibleFiles (workflow : Workflow σ) (tree : FileTree) (path : String)
    (dryRun : Bool) :
    workflow.translateVisited tree path dryRun (tree.visibleFiles path) =
      workflow.translateDirectory tree path dryRun := rfl

/-- Whether names lead from a directory to a file that is to be translated: one that holds text and
has a known language, and no name on the way is hidden. -/
structure Eligible (registry : Registry) (tree : FileTree) (path : String) (directory : Location)
    (names : List String) : Prop where
  text : ∃ value, tree.entry? (directory ++ names) = some (.file (.text value))
  visible : ∀ name ∈ names, ¬ FileTree.IsHidden name
  known : ∃ language, registry.languageOf? (Path.joinAll path names) = some language

/-- How a directory comes out when each of its files is translated as if it were alone. -/
structure AsAlone (registry : Registry) (tree : FileTree) (path : String) (directory : Location)
    (single : String → Outcome τ FileReport) (reports : List FileReport) (after : FileTree) :
    Prop where
  eligible_eq : ∀ names, Eligible registry tree path directory names →
    after.entry? (directory ++ names) =
      FileTree.entry? (single (Path.joinAll path names)).tree (directory ++ names)
  others_eq : ∀ location,
    (∀ names, Eligible registry tree path directory names → location ≠ directory ++ names) →
      after.entry? location = tree.entry? location
  reports_perm : reports.Perm
    ((tree.visibleFiles path).filterMap fun source => (single source).result.toOption)
  nodup_paths : (reports.map FileReport.path).Nodup
  mem_paths_iff : ∀ source, source ∈ reports.map FileReport.path ↔
    ∃ names, Eligible registry tree path directory names ∧ source = Path.joinAll path names

section Directory

variable {names : List String}

theorem eligible_iff {registry : Registry} (htree : tree.Proper)
    (hpath : tree.locate path = .ok directory)
    (hdirectory : tree.entry? directory = some .directory) :
    Eligible registry tree path directory names ↔ names ∈ tree.visited directory ∧
      (registry.languageOf? (Path.joinAll path names)).isSome = true ∧
      ∃ value, tree.FileAt (Path.joinAll path names) (directory ++ names) (.text value) := by
  constructor
  · rintro ⟨⟨value, hentry⟩, hvisible, hknown⟩
    have hmem := FileTree.mem_files_of_entry? hentry
    have hne : names ≠ [] := by
      rintro rfl
      rw [List.append_nil, hdirectory] at hentry
      cases hentry
    exact ⟨FileTree.mem_visited_iff.mpr ⟨hne, hvisible, _, hmem⟩,
      Option.isSome_iff_exists.mpr hknown, value, htree.fileAt_joinAll hpath hne hmem⟩
  · rintro ⟨hvisited, hknown, value, hfile⟩
    obtain ⟨-, hvisible, -⟩ := FileTree.mem_visited_iff.mp hvisited
    exact ⟨⟨value, hfile.entry?_eq htree⟩, hvisible, Option.isSome_iff_exists.mp hknown⟩

theorem mem_visits_iff {visits : List String} (hpath : tree.locate path = .ok directory)
    (hvisits : visits.Perm (tree.visibleFiles path)) :
    source ∈ visits ↔ ∃ names ∈ tree.visited directory, source = Path.joinAll path names := by
  rw [hvisits.mem_iff, FileTree.visibleFiles_eq hpath, List.mem_map]
  simp only [eq_comm]

/-- A file that is not to be translated stays as it is, though a walk may come upon it. -/
theorem Rewrites.eq_self_of_not_eligible {visits : List String}
    {change : Location → Content → Content} (htree : tree.Proper)
    (hpath : tree.locate path = .ok directory)
    (hdirectory : tree.entry? directory = some .directory)
    (hvisits : visits.Perm (tree.visibleFiles path))
    (h : reference.Rewrites answer tree
      (visits.filter fun source => (reference.registry.languageOf? source).isSome) change)
    (hentry : tree.entry? location = some (.file content))
    (hother : ∀ names, Eligible reference.registry tree path directory names →
      location ≠ directory ++ names) :
    change location content = content := by
  by_cases hat : ∃ source ∈ visits.filter (fun source =>
      (reference.registry.languageOf? source).isSome), tree.locate source = .ok location
  · obtain ⟨source, hsource, hlocate⟩ := hat
    obtain ⟨hvisit, hknown⟩ := List.mem_filter.mp hsource
    obtain ⟨names, hvisited, rfl⟩ := (mem_visits_iff hpath hvisits).mp hvisit
    obtain ⟨kept, hfile⟩ := htree.fileAt_of_mem_visited hpath hvisited
    obtain rfl := Except.ok.inj (hlocate.symm.trans hfile.locate_eq)
    obtain rfl := htree.content_unique (FileTree.mem_files_of_entry? hentry) hfile.mem
    rw [h.at_source _ hsource _ _ hfile]
    -- A text would make the file one that is to be translated.
    cases content with
    | binary bytes => rfl
    | text value =>
        exact absurd rfl (hother names ((eligible_iff htree hpath hdirectory).mpr
          ⟨hvisited, hknown, value, hfile⟩))
  · rw [h.elsewhere location fun source hsource hlocate => hat ⟨source, hsource, hlocate⟩, id]

/-- What the run over the files of a walk comes to. -/
theorem Rewrites.asAlone {single : String → Outcome σ FileReport} {visits : List String}
    {change : Location → Content → Content} (htree : tree.Proper)
    (hpath : tree.locate path = .ok directory)
    (hdirectory : tree.entry? directory = some .directory)
    (hvisits : visits.Perm (tree.visibleFiles path))
    (hsingle : ∀ names ∈ tree.visited directory, ∀ content,
      tree.FileAt (Path.joinAll path names) (directory ++ names) content →
        (single (Path.joinAll path names)).result.toOption =
          (reference.ownFile answer (Path.joinAll path names) content).1 ∧
        (single (Path.joinAll path names)).tree = tree.withFile (directory ++ names)
          (reference.ownFile answer (Path.joinAll path names) content).2)
    (h : reference.Rewrites answer tree
      (visits.filter fun source => (reference.registry.languageOf? source).isSome) change) :
    AsAlone reference.registry tree path directory single
      (visits.filterMap (reference.ownReport? answer tree)) (tree.mapContents change) := by
  have hmem {source : String} : source ∈ visits ↔
      ∃ names ∈ tree.visited directory, source = Path.joinAll path names :=
    mem_visits_iff hpath hvisits
  constructor
  case eligible_eq =>
    intro names heligible
    obtain ⟨hvisited, hknown, value, hfile⟩ := (eligible_iff htree hpath hdirectory).mp heligible
    rw [(hsingle names hvisited _ hfile).2, FileTree.entry?_withFile_self,
      FileTree.entry?_mapContents (hfile.entry?_eq htree), Option.map_some, Entry.withContent,
      h.at_source _ (List.mem_filter.mpr ⟨hmem.mpr ⟨names, hvisited, rfl⟩, hknown⟩) _ _ hfile]
  case others_eq =>
    intro location hother
    cases hentry : tree.entry? location with
    | none => rw [FileTree.entry?_mapContents hentry, Option.map_none]
    | some entry =>
        rw [FileTree.entry?_mapContents hentry]
        cases entry with
        | directory => rfl
        | file content =>
            rw [Option.map_some, Entry.withContent,
              h.eq_self_of_not_eligible htree hpath hdirectory hvisits hentry hother]
  case reports_perm =>
    have hsame : ∀ source ∈ tree.visibleFiles path,
        reference.ownReport? answer tree source = (single source).result.toOption := by
      intro source hsource
      obtain ⟨names, hvisited, rfl⟩ := hmem.mp (hvisits.mem_iff.mpr hsource)
      obtain ⟨content, hfile⟩ := htree.fileAt_of_mem_visited hpath hvisited
      rw [ownReport?_of_fileAt htree hfile, (hsingle names hvisited content hfile).1]
    rw [← List.filterMap_congr hsame]
    exact hvisits.filterMap _
  case nodup_paths =>
    rw [map_path_ownReport?]
    exact (hvisits.nodup_iff.mpr (.of_map _ (htree.nodup_locate_visibleFiles hpath))).filter _
  case mem_paths_iff =>
    intro source
    rw [map_path_ownReport?, List.mem_filter, hmem]
    constructor
    · rintro ⟨⟨names, hvisited, rfl⟩, hreport⟩
      obtain ⟨content, hfile⟩ := htree.fileAt_of_mem_visited hpath hvisited
      rw [ownReport?_of_fileAt htree hfile, isSome_ownFile] at hreport
      obtain ⟨⟨value, rfl⟩, hknown⟩ := hreport
      exact ⟨names, (eligible_iff htree hpath hdirectory).mpr ⟨hvisited, hknown, value, hfile⟩,
        rfl⟩
    · rintro ⟨names, heligible, rfl⟩
      obtain ⟨hvisited, hknown, value, hfile⟩ :=
        (eligible_iff htree hpath hdirectory).mp heligible
      refine ⟨⟨names, hvisited, rfl⟩, ?_⟩
      rw [ownReport?_of_fileAt htree hfile, isSome_ownFile]
      exact ⟨⟨value, rfl⟩, hknown⟩

/-- A file of an unknown language has no report, whether the run passes it over or not. -/
theorem filterMap_ownReport?_known (visits : List String) :
    (visits.filter fun source => (reference.registry.languageOf? source).isSome).filterMap
        (reference.ownReport? answer tree) =
      visits.filterMap (reference.ownReport? answer tree) := by
  rw [List.filterMap_filter]
  refine List.filterMap_congr fun source _ => ?_
  split
  next => rfl
  next hunknown =>
    cases hreport : reference.ownReport? answer tree source with
    | none => rfl
    | some report =>
        obtain ⟨content, hown⟩ := exists_ownFile_of_ownReport? hreport
        exact absurd (isSome_ownFile.mp (Option.isSome_of_eq_some hown)).2 hunknown

/-- Changes that rewrite the same files lead to the same tree. -/
theorem Rewrites.mapContents_eq {others : List String}
    {change next : Location → Content → Content} (htree : tree.Proper)
    (hfiles : ∀ source ∈ sources, ∃ location content, tree.FileAt source location content)
    (hsame : ∀ source, source ∈ sources ↔ source ∈ others)
    (h : reference.Rewrites answer tree sources change)
    (hnext : reference.Rewrites answer tree others next) :
    tree.mapContents change = tree.mapContents next := by
  apply FileTree.mapContents_congr
  rintro ⟨location, content⟩ hmem
  by_cases hat : ∃ source ∈ sources, tree.locate source = .ok location
  · obtain ⟨source, hsource, hlocate⟩ := hat
    obtain ⟨place, kept, hfile⟩ := hfiles source hsource
    obtain rfl := Except.ok.inj (hlocate.symm.trans hfile.locate_eq)
    obtain rfl := htree.content_unique hmem hfile.mem
    rw [h.at_source source hsource _ _ hfile,
      hnext.at_source source ((hsame source).mp hsource) _ _ hfile]
  · rw [h.elsewhere location fun source hsource hlocate => hat ⟨source, hsource, hlocate⟩,
      hnext.elsewhere location fun source hsource hlocate =>
        hat ⟨source, (hsame source).mpr hsource, hlocate⟩]

/-- The run over a directory: the reports are the provider's own, and so is the tree. -/
theorem Serves.translateVisited_eq {visits : List String} (h : workflow.Serves reference answer)
    (htree : tree.Proper) (hpath : tree.locate path = .ok directory)
    (hdirectory : tree.entry? directory = some .directory)
    (hvisits : visits.Perm (tree.visibleFiles path))
    (hcalm : (workflow.translateVisited tree path false visits).workflow.session.cancelled =
      false) :
    (workflow.translateVisited tree path false visits).result =
        .ok (visits.filterMap (reference.ownReport? answer tree)) ∧
      ∃ change,
        (workflow.translateVisited tree path false visits).tree = tree.mapContents change ∧
        reference.Rewrites answer tree
          (visits.filter fun source => (reference.registry.languageOf? source).isSome) change := by
  have hdir : tree.isDirectory path = true := by
    simp [FileTree.isDirectory, FileTree.find?, hpath, hdirectory]
  rw [← filterMap_ownReport?_known, ← h.registry_eq]
  simp only [translateVisited, hdir, if_true] at hcalm ⊢
  have hfiles : ∀ source ∈ visits.filter (fun source =>
        (workflow.registry.languageOf? source).isSome),
      ∃ location content, tree.FileAt source location content := fun source hsource =>
    htree.fileAt_of_mem_visibleFiles hpath (hvisits.mem_iff.mp (List.mem_of_mem_filter hsource))
  have hplaces : (((visits.filter fun source =>
      (workflow.registry.languageOf? source).isSome)).map tree.locate).Nodup := by
    have hall : (visits.map tree.locate).Nodup :=
      (hvisits.map tree.locate).nodup_iff.mpr (htree.nodup_locate_visibleFiles hpath)
    exact hall.sublist (List.filter_sublist.map _)
  obtain ⟨hreports, hchange⟩ := h.translateFiles_eq htree hfiles hplaces hcalm
  exact ⟨congrArg Except.ok hreports, hchange⟩

/-- With a provider that answers by the key and a cache that agrees with it, a directory whose
translation is not cancelled comes out as if each of its files were translated alone, by a workflow
that serves the same and is not cancelled, such as a fresh one: a file that is to be translated has
what it would have then, and its report is the one there would be then; everything else is as it
was, a file that cannot be read among it. This holds in whatever order a walk comes upon the files,
so another order, and another cache, lead to the same tree and to the same reports. -/
theorem asAlone_translateVisited {alone : String → Workflow τ} {visits : List String}
    (htree : tree.Proper) (hpath : tree.locate path = .ok directory)
    (hdirectory : tree.entry? directory = some .directory)
    (hanswers : workflow.session.Answers workflow.options answer)
    (hagrees : workflow.session.cache.Agrees answer)
    (hvisits : visits.Perm (tree.visibleFiles path))
    (hcalm : (workflow.translateVisited tree path false visits).workflow.session.cancelled =
      false)
    (halone : ∀ source ∈ tree.visibleFiles path, (alone source).Serves workflow answer ∧
      ((alone source).translateFile tree { input := source }).workflow.session.cancelled = false) :
    ∃ reports, (workflow.translateVisited tree path false visits).result = .ok reports ∧
      AsAlone workflow.registry tree path directory
        (fun source => (alone source).translateFile tree { input := source }) reports
        (workflow.translateVisited tree path false visits).tree ∧
      (∀ (again : Workflow σ) (order : List String), again.Serves workflow answer →
        order.Perm (tree.visibleFiles path) →
        (again.translateVisited tree path false order).workflow.session.cancelled = false →
        (again.translateVisited tree path false order).tree =
            (workflow.translateVisited tree path false visits).tree ∧
          ∃ others, (again.translateVisited tree path false order).result = .ok others ∧
            others.Perm reports) ∧
      workflow.translateDirectory tree path false =
        workflow.translateVisited tree path false (tree.visibleFiles path) := by
  have hserves : workflow.Serves workflow answer := ⟨rfl, rfl, hanswers, hagrees⟩
  obtain ⟨hreports, change, hafter, hrewrites⟩ :=
    hserves.translateVisited_eq htree hpath hdirectory hvisits hcalm
  refine ⟨_, hreports, ?_, ?_, (workflow.translateVisited_visibleFiles tree path false).symm⟩
  · rw [hafter]
    refine hrewrites.asAlone htree hpath hdirectory hvisits fun names hvisited content hfile => ?_
    obtain ⟨hserves, hcalm⟩ := halone (Path.joinAll path names) (by
      rw [FileTree.visibleFiles_eq hpath]
      exact List.mem_map_of_mem hvisited)
    exact hserves.translateFile_eq htree hfile hcalm
  · intro again order hagain horder hstill
    obtain ⟨hothers, next, hnext, hrewrites'⟩ :=
      hagain.translateVisited_eq htree hpath hdirectory horder hstill
    refine ⟨?_, _, hothers, (horder.trans hvisits.symm).filterMap _⟩
    rw [hafter, hnext]
    refine hrewrites'.mapContents_eq htree (fun source hsource => ?_) (fun source => ?_) hrewrites
    · exact htree.fileAt_of_mem_visibleFiles hpath
        (horder.mem_iff.mp (List.mem_of_mem_filter hsource))
    · rw [List.mem_filter, List.mem_filter, (horder.trans hvisits.symm).mem_iff]

/-- A directory with two files that are to be translated, among files that hold no text, have no
known language, are hidden or lie elsewhere. -/
def mixedTree : FileTree where
  files := [(["src", "a.c"], .text "// A\n// b\n"), (["src", "b.c"], .binary [255]),
    (["src", ".git", "c.c"], .text "// a\n"), (["src", "sub", "d.c"], .text "// a\r\n"),
    (["src", "README"], .text "// a\n"), (["e.c"], .text "// a\n")]

def mixedVisits : List String := ["src/sub/d.c", "src/b.c", "src/README", "src/a.c"]

/-- The two files, with what they hold before and after. The provider fails on one comment. -/
def mixedResults : List (List String × String × String) :=
  [(["a.c"], "// A\n// b\n", "// a::en!\n// b\n"), (["sub", "d.c"], "// a\r\n", "// a::en!\r\n")]

theorem locate_mixedTree : mixedTree.locate "src" = .ok ["src"] := by
  decide +kernel

theorem mixedVisits_perm : mixedVisits.Perm (mixedTree.visibleFiles "src") := by
  rw [FileTree.visibleFiles_eq locate_mixedTree]
  refine List.Perm.trans ?_ ((mixedTree.visited_perm ["src"]).map _).symm
  decide +kernel

/-- Neither that provider nor the pauses of its workflow ever cancel. -/
theorem undisturbed_failing {registry : Registry} {cache : Cache} :
    ((failing registry).withCache cache).undisturbed = (failing registry).withCache cache := by
  simp [undisturbed, Session.undisturbed, withCache, failing]

/-- The second file has what the first one brought into the cache, and comes out as it does alone,
with an empty one. -/
theorem asAlone_translateVisited_mixed :
    ∃ registry, Registry.builtin = .ok registry ∧
      let workflow := (failing registry).withCache ⟨5, []⟩
      let outcome := workflow.translateVisited mixedTree "src" false mixedVisits
      (∀ file ∈ mixedResults,
        outcome.tree.entry? (["src"] ++ file.1) = some (.file (.text file.2.2))) ∧
      ∃ reports, outcome.result = .ok reports ∧
        AsAlone registry mixedTree "src" ["src"] (fun source =>
          workflow.fresh.translateFile mixedTree { input := source }) reports outcome.tree := by
  obtain ⟨registry, hbuiltin, hcheck⟩ := Registry.exists_builtin
    (fun registry => ∀ file ∈ mixedResults,
      (registry.languageOf? (Path.joinAll "src" file.1)).isSome = true ∧
        FileTree.entry? (((failing registry).withCache ⟨5, []⟩).fresh.translateFile mixedTree
          { input := Path.joinAll "src" file.1 }).tree (["src"] ++ file.1) =
            some (.file (.text file.2.2))) (by decide +kernel)
  replace hcheck := of_decide_eq_true hcheck
  have hvalue : ∀ file ∈ mixedResults,
      mixedTree.entry? (["src"] ++ file.1) = some (.file (.text file.2.1)) := by
    decide +kernel
  have hvisible : ∀ file ∈ mixedResults, ∀ name ∈ file.1, ¬ FileTree.IsHidden name := by
    decide
  have hanswers : ((failing registry).withCache ⟨5, []⟩).session.Answers
      ((failing registry).withCache ⟨5, []⟩).options (failingOn "b") :=
    (answers_failing registry).of_translators_eq rfl
  have hagrees : ((failing registry).withCache ⟨5, []⟩).session.cache.Agrees (failingOn "b") := by
    simp [Cache.Agrees, withCache]
  obtain ⟨reports, hreports, halone, -⟩ := asAlone_translateVisited (by decide) locate_mixedTree
    (by decide +kernel) hanswers hagrees mixedVisits_perm
    (not_cancelled_of_undisturbed (undisturbed_translateVisited undisturbed_failing))
    (fun source _ => fresh_alone hanswers mixedTree source)
  refine ⟨registry, hbuiltin, fun file hmem => ?_, reports, hreports, halone⟩
  obtain ⟨hknown, hentry⟩ := hcheck file hmem
  exact (halone.eligible_eq file.1
    ⟨⟨_, hvalue file hmem⟩, hvisible file hmem, Option.isSome_iff_exists.mp hknown⟩).trans hentry

end Directory

end Marginalia.Workflow
