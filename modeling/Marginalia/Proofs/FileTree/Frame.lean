import Marginalia.Proofs.Cache.Entries
import Marginalia.Proofs.FileTree

/-! # What a write leaves alone

A file is written where a file is or in a directory that is there, so a write makes no directory and
takes none away. At every location but its own stands what stood there before, and every other path
leads to what it led to. A file that can be read can be written.
-/

namespace Marginalia.FileTree

variable {tree after : FileTree} {location here above : Location} {content : Content}
  {path text : String}

/-- Whether two trees differ at most in the file to which a path leads: at every other location
stands the same, and so behind every path that leads elsewhere or nowhere. -/
structure DiffersOnlyAt (tree after : FileTree) (target : String) : Prop where
  entry?_eq : ∀ here, tree.locate target ≠ .ok here → after.entry? here = tree.entry? here
  find?_eq : ∀ path, (∀ here, tree.locate path = .ok here → tree.locate target ≠ .ok here) →
    after.find? path = tree.find? path

/-- Whether a file can be at a location: one is there, or nothing is there and a directory above. -/
def HasRoom (tree : FileTree) (location : Location) : Prop :=
  (∃ content, tree.entry? location = some (.file content)) ∨
    (tree.entry? location = none ∧ tree.entry? location.dropLast = some .directory)

theorem hasRoom_of_writeText (h : tree.writeText path text = .ok after)
    (hlocate : tree.locateTarget path = .ok location) : tree.HasRoom location := by
  unfold writeText at h
  rw [hlocate] at h
  simp only [bind, Except.bind] at h
  split at h
  next => cases h
  next content hentry => exact Or.inl ⟨content, hentry⟩
  next hentry habove => exact Or.inr ⟨hentry, habove⟩
  next => cases h
  next => cases h

/-! ## Directories -/

theorem isDirectoryAt_iff : tree.isDirectoryAt here = true ↔
    (here = [] ∨ ∃ directory ∈ tree.directories, here <+: directory) ∨
      ∃ file ∈ tree.files, here <+: file.1 ∧ here ≠ file.1 := by
  simp only [isDirectoryAt, Bool.or_eq_true, List.any_eq_true, Bool.and_eq_true, bne_iff_ne,
    List.isPrefixOf_iff_prefix, List.isEmpty_iff]

/-- What lies above a directory is a directory. -/
theorem isDirectoryAt_of_prefix (habove : above <+: here) (h : tree.isDirectoryAt here = true) :
    tree.isDirectoryAt above = true := by
  rw [isDirectoryAt_iff] at *
  rcases h with (rfl | ⟨directory, hmem, hbelow⟩) | ⟨file, hmem, hbelow, hne⟩
  · exact Or.inl (Or.inl (List.prefix_nil.mp habove))
  · exact Or.inl (Or.inr ⟨directory, hmem, habove.trans hbelow⟩)
  · refine Or.inr ⟨file, hmem, habove.trans hbelow, ?_⟩
    rintro rfl
    exact hne (hbelow.eq_of_length_le habove.length_le)

theorem isDirectoryAt_of_directory (h : tree.entry? here = some .directory) :
    tree.isDirectoryAt here = true := by
  unfold entry? at h
  split at h
  next => cases h
  next =>
    split at h
    next hdirectory => exact hdirectory
    next => cases h

theorem mem_of_mem_put {files : List (Location × Content)} {file : Location × Content}
    (h : file ∈ put location content files) : file = (location, content) ∨ file ∈ files := by
  induction files with
  | nil => exact Or.inl (List.mem_singleton.mp h)
  | cons first files ih =>
      rw [put] at h
      split at h
      next =>
        rcases List.mem_cons.mp h with rfl | h
        · exact Or.inl rfl
        · exact Or.inr (List.mem_cons_of_mem _ h)
      next =>
        rcases List.mem_cons.mp h with rfl | h
        · exact Or.inr List.mem_cons_self
        · exact (ih h).imp_right (List.mem_cons_of_mem _)

/-- A write makes no directory: what lies above the file was a directory before. -/
theorem isDirectoryAt_of_withFile (hroom : tree.HasRoom location)
    (h : (tree.withFile location content).isDirectoryAt here = true) :
    tree.isDirectoryAt here = true := by
  rw [isDirectoryAt_iff] at h
  rcases h with hold | ⟨file, hmem, hbelow, hne⟩
  · exact isDirectoryAt_iff.mpr (Or.inl hold)
  rcases mem_of_mem_put hmem with rfl | hmem
  · rcases hroom with ⟨old, hentry⟩ | ⟨-, habove⟩
    · unfold entry? at hentry
      split at hentry
      next found hlookup =>
        exact isDirectoryAt_iff.mpr (Or.inr ⟨_, mem_of_lookup hlookup, hbelow, hne⟩)
      next => split at hentry <;> cases hentry
    · obtain ⟨rest, rfl⟩ := hbelow
      have hrest : rest ≠ [] := by
        rintro rfl
        exact hne (List.append_nil here).symm
      rw [List.dropLast_append_of_ne_nil hrest] at habove
      exact isDirectoryAt_of_prefix (List.prefix_append ..) (isDirectoryAt_of_directory habove)
  · exact isDirectoryAt_iff.mpr (Or.inr ⟨file, hmem, hbelow, hne⟩)

/-! ## Locations and paths -/

theorem entry?_withFile_of_ne (hroom : tree.HasRoom location) (hne : here ≠ location) :
    entry? (tree.withFile location content) here = tree.entry? here := by
  have hdirectory : (tree.withFile location content).isDirectoryAt here =
      tree.isDirectoryAt here :=
    Bool.eq_iff_iff.mpr ⟨isDirectoryAt_of_withFile hroom, isDirectoryAt_withFile⟩
  unfold entry?
  rw [hdirectory, withFile, lookup_put_of_ne hne]

theorem HasRoom.entry?_ne (h : tree.HasRoom location) :
    tree.entry? location ≠ some .directory := by
  rcases h with ⟨content, hentry⟩ | ⟨hentry, -⟩ <;> simp [hentry]

/-- A path leads where it led before, and nowhere if it led nowhere. -/
theorem toOption_follow_withFile (hroom : tree.HasRoom location) {names : List (List Char)} :
    ((tree.withFile location content).follow here names).toOption =
      (tree.follow here names).toOption := by
  induction names generalizing here with
  | nil => rfl
  | cons name names ih =>
      rw [follow, follow]
      by_cases hne : here = location
      · -- Nothing lies below a file, the old one or the new one.
        subst hne
        have hnot := hroom.entry?_ne
        rw [entry?_withFile_self]
        cases hentry : tree.entry? here with
        | none => rfl
        | some entry =>
            cases entry with
            | file old => rfl
            | directory => exact absurd hentry hnot
      · rw [entry?_withFile_of_ne hroom hne]
        cases tree.entry? here with
        | none => rfl
        | some entry =>
            cases entry with
            | file old => rfl
            | directory =>
                simp only
                split
                next => exact ih
                next =>
                  split
                  next =>
                    split
                    next => rfl
                    next => exact ih
                  next => exact ih

theorem find?_eq_bind (tree : FileTree) (path : String) :
    tree.find? path = (tree.locate path).toOption.bind tree.entry? := by
  unfold find?
  cases tree.locate path <;> rfl

theorem toOption_locate_withFile (hroom : tree.HasRoom location) :
    ((tree.withFile location content).locate path).toOption = (tree.locate path).toOption := by
  unfold locate
  split
  next => rfl
  next => exact toOption_follow_withFile hroom

theorem DiffersOnlyAt.refl (tree : FileTree) (target : String) :
    tree.DiffersOnlyAt tree target := ⟨fun _ _ => rfl, fun _ _ => rfl⟩

/-- A write changes the file that it writes and nothing else. -/
theorem differsOnlyAt_of_writeText (h : tree.writeText path text = .ok after) :
    tree.DiffersOnlyAt after path := by
  obtain ⟨location, htarget, -, rfl⟩ := exists_location_of_writeText h
  have hroom := hasRoom_of_writeText h htarget
  have hlocate : tree.locate path = .ok location := by
    obtain ⟨hpath, hfollow⟩ := follow_of_locateTarget htarget
    rw [locate, if_neg (by simp [hpath]), hfollow]
  constructor
  case entry?_eq =>
    intro here hne
    refine entry?_withFile_of_ne hroom ?_
    rintro rfl
    exact hne hlocate
  case find?_eq =>
    intro other hother
    rw [find?_eq_bind, find?_eq_bind, toOption_locate_withFile hroom]
    cases hfound : tree.locate other with
    | error fault => rfl
    | ok here =>
        refine entry?_withFile_of_ne hroom ?_
        rintro rfl
        exact hother here hfound hlocate

/-- Whether a write fails, and how, does not depend on the text. -/
theorem writeText_eq_error {fault : FileFault} (h : tree.writeText path text = .error fault)
    (other : String) : tree.writeText path other = .error fault := by
  unfold writeText at *
  cases hlocate : tree.locateTarget path with
  | error unlocated =>
      rw [hlocate] at h
      exact h
  | ok location =>
      rw [hlocate] at h
      simp only [bind, Except.bind] at h ⊢
      split at h
      next => exact h
      next => cases h
      next => cases h
      next => exact h
      next => exact h

/-! ## Files that can be read -/

theorem exists_location_of_readText (h : tree.readText path = .ok text) :
    ∃ location, tree.locate path = .ok location ∧
      tree.entry? location = some (.file (.text text)) := by
  unfold readText at h
  cases hlocate : tree.locate path with
  | error fault =>
      rw [hlocate] at h
      cases h
  | ok location =>
      rw [hlocate] at h
      refine ⟨location, rfl, ?_⟩
      simp only [bind, Except.bind] at h
      split at h
      next => cases h
      next => cases h
      next => cases h
      next value hentry =>
        cases h
        exact hentry

/-- A slash at the end of a path stands behind a directory. -/
theorem entry?_of_follow_concat_nil {names : List (List Char)}
    (h : tree.follow here (names ++ [[]]) = .ok location) :
    tree.entry? location = some .directory := by
  induction names generalizing here with
  | nil =>
      have hentry := entry?_of_follow_cons h
      rw [List.nil_append, follow_cons hentry] at h
      cases h
      exact hentry
  | cons name names ih =>
      rw [List.cons_append] at h
      rw [follow_cons (entry?_of_follow_cons h)] at h
      split at h
      next => exact ih h
      next =>
        split at h
        next =>
          split at h
          next => cases h
          next => exact ih h
        next => exact ih h

theorem locateTarget_of_locate (hlocate : tree.locate path = .ok location)
    (hfile : tree.entry? location ≠ some .directory) : tree.locateTarget path = .ok location := by
  unfold locate at hlocate
  split at hlocate
  next => cases hlocate
  next hpath =>
    have hall : (Path.pieces [] path.toList).reverse.dropWhile List.isEmpty =
        (Path.pieces [] path.toList).reverse := by
      cases hpieces : (Path.pieces [] path.toList).reverse with
      | nil => rfl
      | cons last pieces =>
          cases last with
          | cons c rest => rfl
          | nil =>
              rw [List.reverse_eq_cons_iff] at hpieces
              rw [hpieces] at hlocate
              exact absurd (entry?_of_follow_concat_nil hlocate) hfile
    unfold locateTarget
    simp only [hall, List.reverse_reverse, hlocate, bind, Except.bind, Nat.lt_irrefl, if_false,
      if_neg hpath]
    rfl

theorem exists_writeText_of_readText (h : tree.readText path = .ok text) (new : String) :
    ∃ after, tree.writeText path new = .ok after := by
  obtain ⟨location, hlocate, hentry⟩ := exists_location_of_readText h
  have htarget := locateTarget_of_locate hlocate (by simp [hentry])
  refine ⟨tree.withFile location (.text new), ?_⟩
  simp only [writeText, htarget, hentry, bind, Except.bind]
  rfl

end Marginalia.FileTree
