import Marginalia.Proofs.FileTree.Contents

/-! # The files below a directory

The path of a file below a directory is the path of the directory with the names that lead on from
there. In a proper tree it leads to the file, for reading as for writing, however the path of the
directory is spelled. So the files that a walk comes upon are told apart by their paths.
-/

namespace Marginalia

namespace Path

theorem pieces_eq_splitOnPPrepend (piece text : List Char) :
    pieces piece text = text.splitOnPPrepend (· == '/') piece := by
  induction text generalizing piece with
  | nil => rfl
  | cons c rest ih =>
      rw [pieces, List.splitOnPPrepend_cons_eq_if, ih, ih]
      rfl

theorem pieces_eq_splitOn (text : List Char) : pieces [] text = text.splitOn '/' := by
  rw [pieces_eq_splitOnPPrepend, List.splitOnPPrepend_nil_right, List.splitOn_eq_splitOnP]

/-- The path to which names lead on from a directory. -/
def joinAll (directory : String) (names : List String) : String :=
  join directory ("/".intercalate names)

theorem isEmpty_joinAll {directory : String} {names : List String}
    (h : directory.isEmpty = false) : (joinAll directory names).isEmpty = false := by
  rw [Bool.eq_false_iff, ne_eq, String.isEmpty_iff] at h ⊢
  unfold joinAll join
  split <;> simp [h]

theorem pieces_intercalate {names : List String} (hnames : ∀ name ∈ names, IsName name)
    (hne : names ≠ []) :
    pieces [] ("/".intercalate names).toList = names.map String.toList := by
  have hslash : ∀ name ∈ names.map String.toList, '/' ∉ name :=
    List.forall_mem_map.mpr fun name hmem => (hnames name hmem).2.2.2
  rw [pieces_eq_splitOn, String.toList_intercalate]
  exact List.splitOn_intercalate '/' hslash (by simpa using hne)

/-- The pieces of a path behind a directory come behind those of the directory, except for what a
slash at its end leaves. -/
theorem exists_pieces_joinAll {directory : String} {names : List String}
    (hdirectory : directory.isEmpty = false) (hnames : ∀ name ∈ names, IsName name)
    (hne : names ≠ []) :
    ∃ front, (pieces [] directory.toList = front ∨ pieces [] directory.toList = front ++ [[]]) ∧
      pieces [] (joinAll directory names).toList = front ++ names.map String.toList := by
  rw [joinAll, join, hdirectory, Bool.or_false]
  split
  next hslash =>
    obtain ⟨base, hbase⟩ := List.getLast?_eq_some_iff.mp (eq_of_beq hslash)
    refine ⟨pieces [] base, Or.inr ?_, ?_⟩
    · rw [hbase, pieces_eq_splitOn, pieces_eq_splitOn, List.splitOn_append_cons_self,
        List.splitOn_nil]
    · rw [String.toList_append, hbase, List.append_assoc, List.singleton_append,
        ← pieces_intercalate hnames hne, pieces_eq_splitOn, List.splitOn_append_cons_self,
        pieces_eq_splitOn, pieces_eq_splitOn]
  next =>
    refine ⟨pieces [] directory.toList, Or.inl rfl, ?_⟩
    have hjoined : (directory ++ "/" ++ "/".intercalate names).toList =
        directory.toList ++ '/' :: ("/".intercalate names).toList := by
      simp
    rw [hjoined, ← pieces_intercalate hnames hne, pieces_eq_splitOn,
      List.splitOn_append_cons_self, pieces_eq_splitOn, pieces_eq_splitOn]

end Path

namespace FileTree

variable {tree : FileTree} {path source : String} {directory location here : Location}
  {names : List String} {content : Content}

/-! ## Paths to files -/

theorem follow_append {first second : List (List Char)} :
    tree.follow here (first ++ second) =
      (tree.follow here first).bind fun found => tree.follow found second := by
  induction first generalizing here with
  | nil => rfl
  | cons name first ih =>
      rw [List.cons_append, follow, follow]
      cases tree.entry? here with
      | none => rfl
      | some entry =>
          cases entry with
          | file content => rfl
          | directory =>
              simp only [ih]
              -- The name stays where it is, goes up, or goes down.
              split
              next => rfl
              next =>
                split
                next => split <;> rfl
                next => rfl

/-- An empty piece at the end of a path leads no further. -/
theorem follow_of_append_empty {front : List (List Char)}
    (h : tree.follow here (front ++ [[]]) = .ok location) :
    tree.follow here front = .ok location := by
  rw [follow_append] at h
  cases hfront : tree.follow here front with
  | error fault =>
      rw [hfront] at h
      cases h
  | ok found =>
      rw [hfront] at h
      change tree.follow found [[]] = .ok location at h
      rw [follow_cons (entry?_of_follow_cons h)] at h
      exact h

/-- Names lead to the file that they name. -/
theorem Proper.follow_names (htree : tree.Proper)
    (hmem : (here ++ names, content) ∈ tree.files) :
    tree.follow here (names.map String.toList) = .ok (here ++ names) := by
  induction names generalizing here with
  | nil =>
      rw [List.append_nil]
      rfl
  | cons name names ih =>
      obtain ⟨hempty, hpoint, hup, -⟩ := htree.isName _ hmem name (by simp)
      have hstay : name.toList ≠ [] ∧ name.toList ≠ ['.'] :=
        ⟨fun h => hempty (String.toList_inj.mp h), fun h => hpoint (String.toList_inj.mp h)⟩
      have hdown : name.toList ≠ ['.', '.'] := fun h => hup (String.toList_inj.mp h)
      rw [List.map_cons, follow_cons (htree.entry?_of_append_mem hmem),
        if_neg (by simpa using hstay), if_neg (by simpa using hdown), String.ofList_toList]
      rw [List.append_cons here name names] at hmem ⊢
      exact ih hmem

/-- Whether a path leads to a file at a location, for reading as for writing. -/
structure FileAt (tree : FileTree) (path : String) (location : Location) (content : Content) :
    Prop where
  locate_eq : tree.locate path = .ok location
  locateTarget_eq : tree.locateTarget path = .ok location
  mem : (location, content) ∈ tree.files

theorem Proper.fileAt_joinAll (htree : tree.Proper) (hpath : tree.locate path = .ok directory)
    (hne : names ≠ []) (hmem : (directory ++ names, content) ∈ tree.files) :
    tree.FileAt (Path.joinAll path names) (directory ++ names) content := by
  have hnames : ∀ name ∈ names, IsName name := fun name hname =>
    htree.isName _ hmem name (List.mem_append_right directory hname)
  unfold locate at hpath
  split at hpath
  next => cases hpath
  next hempty =>
    obtain ⟨front, hfront, hpieces⟩ :=
      Path.exists_pieces_joinAll (by simpa using hempty) hnames hne
    have hbase : tree.follow [] front = .ok directory := by
      rcases hfront with heq | heq
      · rw [← heq]
        exact hpath
      · rw [heq] at hpath
        exact follow_of_append_empty hpath
    have hfollow : tree.follow [] (front ++ names.map String.toList) =
        .ok (directory ++ names) := by
      rw [follow_append, hbase]
      exact htree.follow_names hmem
    have hjoined : (Path.joinAll path names).isEmpty = false :=
      Path.isEmpty_joinAll (by simpa using hempty)
    -- The path ends with a name, so there is no slash to drop.
    obtain ⟨names, last, rfl⟩ := (List.eq_nil_or_concat' names).resolve_left hne
    have hlast : last.toList.isEmpty = false := by
      simpa using (hnames last (by simp)).1
    constructor
    case locate_eq => rw [locate, if_neg (by simp [hjoined]), hpieces, hfollow]
    case locateTarget_eq =>
      have hall : ((front ++ (names ++ [last]).map String.toList).reverse.dropWhile
          List.isEmpty).reverse = front ++ (names ++ [last]).map String.toList := by
        simp [hlast]
      simp only [locateTarget, hpieces, hall, hfollow, hjoined]
      simp [bind, Except.bind, pure, Except.pure]
    case mem => exact hmem

namespace FileAt

theorem entry?_eq (h : tree.FileAt source location content) (htree : tree.Proper) :
    tree.entry? location = some (.file content) :=
  htree.entry?_of_mem h.mem

theorem find?_eq (h : tree.FileAt source location content) (htree : tree.Proper) :
    tree.find? source = some (.file content) := by
  simp only [find?, h.locate_eq, h.entry?_eq htree]

theorem readText_text {value : String} (h : tree.FileAt source location (.text value))
    (htree : tree.Proper) : tree.readText source = .ok value := by
  simp [readText, h.locate_eq, h.entry?_eq htree, bind, Except.bind]

theorem readText_binary {bytes : List UInt8} (h : tree.FileAt source location (.binary bytes))
    (htree : tree.Proper) : tree.readText source = .error .notText := by
  simp [readText, h.locate_eq, h.entry?_eq htree, bind, Except.bind]

theorem writeText_eq (h : tree.FileAt source location content) (htree : tree.Proper)
    (text : String) :
    tree.writeText source text = .ok (tree.withFile location (.text text)) := by
  simp [writeText, h.locateTarget_eq, h.entry?_eq htree, bind, Except.bind, withFile]

theorem mapContents {change : Location → Content → Content}
    (h : tree.FileAt source location content) :
    (tree.mapContents change).FileAt source location (change location content) := by
  constructor
  case locate_eq => rw [locate_mapContents, h.locate_eq]
  case locateTarget_eq => rw [locateTarget_mapContents, h.locateTarget_eq]
  case mem => exact List.mem_map_of_mem h.mem

end FileAt

/-! ## The walk -/

/-- Whether a walk passes over what a name names. -/
def IsHidden (name : String) : Prop := name.toList.head? = some '.'

instance (name : String) : Decidable (IsHidden name) := inferInstanceAs (Decidable (_ = _))

theorem dropPrefix_eq_some_iff {file : Location} :
    (if directory.isPrefixOf file then some (file.drop directory.length) else none) = some names ↔
      file = directory ++ names := by
  rw [Option.ite_none_right_eq_some, List.isPrefixOf_iff_prefix, Option.some.injEq]
  constructor
  · rintro ⟨⟨rest, rfl⟩, rfl⟩
    rw [List.drop_left]
  · rintro rfl
    exact ⟨List.prefix_append directory names, List.drop_left⟩

theorem mem_filesBelow_iff :
    names ∈ tree.filesBelow directory ↔ ∃ content, (directory ++ names, content) ∈ tree.files := by
  rw [filesBelow, List.mem_mergeSort, List.mem_filterMap]
  simp only [dropPrefix_eq_some_iff, Prod.exists]
  constructor
  · rintro ⟨_, content, hmem, rfl⟩
    exact ⟨content, hmem⟩
  · rintro ⟨content, hmem⟩
    exact ⟨_, content, hmem, rfl⟩

theorem Proper.nodup_filesBelow (htree : tree.Proper) : (tree.filesBelow directory).Nodup := by
  have hfiles := htree.nodup
  rw [List.Nodup, List.pairwise_map] at hfiles
  rw [filesBelow, (List.mergeSort_perm _ _).nodup_iff]
  refine hfiles.filterMap _ fun file other hne names hnames names' hnames' => ?_
  rintro rfl
  rw [dropPrefix_eq_some_iff] at hnames hnames'
  exact hne (hnames.trans hnames'.symm)

/-- The files that a walk below a directory comes upon, as their locations from there. -/
def visited (tree : FileTree) (directory : Location) : List Location :=
  (tree.filesBelow directory).filter fun names =>
    !names.isEmpty && !names.any fun name => name.toList.head? == some '.'

theorem mem_visited_iff :
    names ∈ tree.visited directory ↔ names ≠ [] ∧ (∀ name ∈ names, ¬ IsHidden name) ∧
      ∃ content, (directory ++ names, content) ∈ tree.files := by
  simp only [visited, List.mem_filter, mem_filesBelow_iff, Bool.and_eq_true, Bool.not_eq_true',
    List.isEmpty_eq_false_iff, List.any_eq_false, beq_iff_eq, IsHidden]
  exact ⟨fun ⟨hmem, hne, hvisible⟩ => ⟨hne, hvisible, hmem⟩,
    fun ⟨hne, hvisible, hmem⟩ => ⟨hmem, hne, hvisible⟩⟩

/-- The order of the walk is that of the names; the files are those of the tree. -/
theorem visited_perm (tree : FileTree) (directory : Location) :
    (tree.visited directory).Perm ((tree.files.filterMap fun (file, _) =>
      if directory.isPrefixOf file then some (file.drop directory.length) else none).filter
        fun names => !names.isEmpty && !names.any fun name => name.toList.head? == some '.') :=
  (List.mergeSort_perm _ _).filter _

theorem visibleFiles_eq (hpath : tree.locate path = .ok directory) :
    tree.visibleFiles path = (tree.visited directory).map (Path.joinAll path) := by
  simp only [visibleFiles, hpath]
  rfl

/-- A walk comes upon files. -/
theorem Proper.fileAt_of_mem_visited (htree : tree.Proper)
    (hpath : tree.locate path = .ok directory) (hmem : names ∈ tree.visited directory) :
    ∃ content, tree.FileAt (Path.joinAll path names) (directory ++ names) content := by
  obtain ⟨hne, -, content, hfile⟩ := mem_visited_iff.mp hmem
  exact ⟨content, htree.fileAt_joinAll hpath hne hfile⟩

theorem Proper.fileAt_of_mem_visibleFiles (htree : tree.Proper)
    (hpath : tree.locate path = .ok directory) (hmem : source ∈ tree.visibleFiles path) :
    ∃ location content, tree.FileAt source location content := by
  rw [visibleFiles_eq hpath, List.mem_map] at hmem
  obtain ⟨names, hvisited, rfl⟩ := hmem
  exact ⟨_, htree.fileAt_of_mem_visited hpath hvisited⟩

/-- No two files of a walk are at one place. -/
theorem Proper.nodup_locate_visibleFiles (htree : tree.Proper)
    (hpath : tree.locate path = .ok directory) :
    ((tree.visibleFiles path).map tree.locate).Nodup := by
  rw [visibleFiles_eq hpath, List.map_map]
  refine (htree.nodup_filesBelow.filter _).map_on fun names hmem names' hmem' heq => ?_
  obtain ⟨_, hfile⟩ := htree.fileAt_of_mem_visited hpath hmem
  obtain ⟨_, hfile'⟩ := htree.fileAt_of_mem_visited hpath hmem'
  have hsame : (.ok (directory ++ names) : Except FileFault Location) =
      .ok (directory ++ names') :=
    hfile.locate_eq.symm.trans (heq.trans hfile'.locate_eq)
  exact List.append_cancel_left (Except.ok.inj hsame)

end FileTree

end Marginalia
