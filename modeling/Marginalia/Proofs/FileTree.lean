import Marginalia.FileTree

/-! # Reading what was written

Writing a file changes what stands at one location. That location is no directory, so paths
lead where they led before, and the text is read from the path to which it was written.
-/

namespace Marginalia.FileTree

variable {tree after : FileTree} {location here : Location} {content : Content}

/-- The tree with a content in the file at a location. -/
def withFile (tree : FileTree) (location : Location) (content : Content) : FileTree :=
  { tree with files := put location content tree.files }

theorem lookup_put_self {files : List (Location × Content)} :
    (put location content files).lookup location = some content := by
  induction files with
  | nil => simp [put]
  | cons file files ih =>
      rw [put]
      by_cases h : file.1 = location
      · simp [h]
      · have hne : (location == file.1) = false := by simpa using Ne.symm h
        rw [if_neg (by simpa using h), List.lookup_cons, hne]
        exact ih

theorem lookup_put_of_ne {files : List (Location × Content)} (hne : here ≠ location) :
    (put location content files).lookup here = files.lookup here := by
  have hfalse : (here == location) = false := by simpa using hne
  induction files with
  | nil => rw [put, List.lookup_cons, hfalse]
  | cons file files ih =>
      rw [put]
      by_cases h : file.1 = location
      · rw [if_pos (by simpa using h), List.lookup_cons, List.lookup_cons, hfalse, h, hfalse]
      · rw [if_neg (by simpa using h), List.lookup_cons, List.lookup_cons, ih]

theorem mem_put_of_mem {files : List (Location × Content)} {file : Location × Content}
    (hmem : file ∈ files) : ∃ other ∈ put location content files, other.1 = file.1 := by
  induction files with
  | nil => cases hmem
  | cons first files ih =>
      rw [put]
      by_cases h : first.1 = location
      · rw [if_pos (by simpa using h)]
        rcases List.mem_cons.mp hmem with rfl | hmem
        · exact ⟨_, List.mem_cons_self, h.symm⟩
        · exact ⟨file, List.mem_cons_of_mem _ hmem, rfl⟩
      · rw [if_neg (by simpa using h)]
        rcases List.mem_cons.mp hmem with rfl | hmem
        · exact ⟨_, List.mem_cons_self, rfl⟩
        · obtain ⟨other, hother, heq⟩ := ih hmem
          exact ⟨other, List.mem_cons_of_mem _ hother, heq⟩

/-- A new file makes no directory go away. -/
theorem isDirectoryAt_withFile (h : tree.isDirectoryAt here = true) :
    (tree.withFile location content).isDirectoryAt here = true := by
  unfold isDirectoryAt at *
  rw [Bool.or_eq_true] at *
  rcases h with h | h
  · exact Or.inl h
  · right
    obtain ⟨file, hmem, hfile⟩ := List.any_eq_true.mp h
    obtain ⟨⟨other, kept⟩, hother, heq⟩ : ∃ other ∈ put location content tree.files,
        other.1 = file.1 := mem_put_of_mem hmem
    subst heq
    exact List.any_eq_true.mpr ⟨_, hother, hfile⟩

theorem entry?_withFile_self :
    entry? (tree.withFile location content) location = some (.file content) := by
  unfold entry?
  rw [withFile, lookup_put_self]

theorem entry?_withFile_of_directory (h : tree.entry? here = some .directory)
    (hne : here ≠ location) :
    entry? (tree.withFile location content) here = some .directory := by
  unfold entry? at *
  rw [withFile, lookup_put_of_ne hne]
  split at h
  next => cases h
  next hnone =>
    have hdirectory : tree.isDirectoryAt here = true := by
      split at h
      next hdirectory => exact hdirectory
      next => cases h
    exact if_pos (isDirectoryAt_withFile hdirectory)

theorem entry?_of_follow_cons {name : List Char} {names : List (List Char)} {found : Location}
    (h : tree.follow here (name :: names) = .ok found) : tree.entry? here = some .directory := by
  rw [follow] at h
  split at h
  next => cases h
  next => cases h
  next hentry => exact hentry

theorem follow_cons {name : List Char} {names : List (List Char)}
    (h : tree.entry? here = some .directory) :
    tree.follow here (name :: names) =
      if name == [] || name == ['.'] then tree.follow here names
      else if name == ['.', '.'] then
        if here.isEmpty then .error .notFound else tree.follow here.dropLast names
      else tree.follow (here ++ [String.ofList name]) names := by
  rw [follow, h]

/-- A path leads where it led before when what is written at is no directory. -/
theorem follow_withFile {names : List (List Char)} {found : Location}
    (hnot : tree.entry? location ≠ some .directory)
    (h : tree.follow here names = .ok found) :
    (tree.withFile location content).follow here names = .ok found := by
  induction names generalizing here with
  | nil => exact h
  | cons name names ih =>
      have hentry := entry?_of_follow_cons h
      have hne : here ≠ location := by
        rintro rfl
        exact hnot hentry
      rw [follow_cons hentry] at h
      rw [follow_cons (entry?_withFile_of_directory hentry hne)]
      -- The name stays where it is, goes up, or goes down.
      split at h
      next hsame =>
        rw [if_pos hsame]
        exact ih h
      next hmove =>
        rw [if_neg hmove]
        split at h
        next hup =>
          rw [if_pos hup]
          split at h
          next => cases h
          next hin =>
            rw [if_neg hin]
            exact ih h
        next hdown =>
          rw [if_neg hdown]
          exact ih h

/-- A path that is written has no slash at its end, so it is followed as a whole. -/
theorem follow_of_locateTarget {path : String} (h : tree.locateTarget path = .ok location) :
    path.isEmpty = false ∧ tree.follow [] (Path.pieces [] path.toList) = .ok location := by
  unfold locateTarget at h
  simp only at h
  cases hfollow : tree.follow []
      ((Path.pieces [] path.toList).reverse.dropWhile List.isEmpty).reverse with
  | error fault =>
      rw [hfollow] at h
      cases h
  | ok found =>
      rw [hfollow] at h
      change (if path.isEmpty = true then _ else _) = Except.ok location at h
      split at h
      next => cases h
      next hpath =>
        split at h
        next => cases h
        next hlength =>
          cases h
          -- Nothing was dropped, as what is left is not shorter.
          have hall : (Path.pieces [] path.toList).reverse.dropWhile List.isEmpty =
              (Path.pieces [] path.toList).reverse := by
            apply (List.dropWhile_suffix _).eq_of_length_le
            simpa using hlength
          rw [hall, List.reverse_reverse] at hfollow
          exact ⟨by simpa using hpath, hfollow⟩

/-- A file is written where its path leads, and nothing else changes. -/
theorem exists_location_of_writeText {path text : String}
    (h : tree.writeText path text = .ok after) :
    ∃ location, tree.locateTarget path = .ok location ∧
      tree.entry? location ≠ some .directory ∧ after = tree.withFile location (.text text) := by
  unfold writeText at h
  cases hlocate : tree.locateTarget path with
  | error fault =>
      rw [hlocate] at h
      cases h
  | ok location =>
      rw [hlocate] at h
      refine ⟨location, rfl, ?_⟩
      simp only [bind, Except.bind] at h
      split at h
      next => cases h
      next content hentry =>
        cases h
        exact ⟨by simp [hentry], rfl⟩
      next hentry _ =>
        cases h
        exact ⟨by simp [hentry], rfl⟩
      next => cases h
      next => cases h

/-- A text that was written to a path is read from that path. -/
theorem readText_of_writeText {path text : String} (h : tree.writeText path text = .ok after) :
    after.readText path = .ok text := by
  obtain ⟨location, hlocate, hnot, rfl⟩ := exists_location_of_writeText h
  obtain ⟨hpath, hfollow⟩ := follow_of_locateTarget hlocate
  have hsame : (tree.withFile location (.text text)).locate path = .ok location := by
    rw [locate, if_neg (by simp [hpath])]
    exact follow_withFile hnot hfollow
  rw [readText, hsame]
  simp [entry?_withFile_self, bind, Except.bind]

end Marginalia.FileTree
