import Mathlib.Data.List.Nodup
import Marginalia.Proofs.Cache.Entries
import Marginalia.Proofs.FileTree

/-! # Replacing the contents of files

A path is followed through directories, so it leads where it led before when only the contents of
files are replaced. In a proper tree, where no two files are at one place and none is at the place
of a directory, writing a file that is there is such a replacement.
-/

namespace Marginalia

/-- Whether a name can be the name of a file: it has no slash and does not stand for something
else. -/
def IsName (name : String) : Prop :=
  name ≠ "" ∧ name ≠ "." ∧ name ≠ ".." ∧ '/' ∉ name.toList

instance (name : String) : Decidable (IsName name) :=
  inferInstanceAs (Decidable (_ ∧ _ ∧ _ ∧ _))

/-- An entry with another content, if it is a file. -/
def Entry.withContent (change : Content → Content) : Entry → Entry
  | .file content => .file (change content)
  | .directory => .directory

namespace FileTree

/-- Whether every file of a tree has a place of its own, to which names lead. -/
structure Proper (tree : FileTree) : Prop where
  isName : ∀ file ∈ tree.files, ∀ name ∈ file.1, IsName name
  nodup : (tree.files.map Prod.fst).Nodup
  apart : ∀ file ∈ tree.files, tree.isDirectoryAt file.1 = false

instance (tree : FileTree) : Decidable tree.Proper :=
  decidable_of_iff
    ((∀ file ∈ tree.files, ∀ name ∈ file.1, IsName name) ∧ (tree.files.map Prod.fst).Nodup ∧
      ∀ file ∈ tree.files, tree.isDirectoryAt file.1 = false)
    ⟨fun ⟨isName, nodup, apart⟩ => ⟨isName, nodup, apart⟩,
      fun ⟨isName, nodup, apart⟩ => ⟨isName, nodup, apart⟩⟩

/-- The tree in which every file has what its content is changed to. -/
def mapContents (tree : FileTree) (change : Location → Content → Content) : FileTree :=
  { tree with files := tree.files.map fun file => (file.1, change file.1 file.2) }

variable {tree : FileTree} {location here : Location} {content : Content}
  {change next : Location → Content → Content}

/-! ## What stays when contents are replaced -/

@[simp] theorem isDirectoryAt_mapContents :
    (tree.mapContents change).isDirectoryAt here = tree.isDirectoryAt here := by
  simp [isDirectoryAt, mapContents, List.any_map, Function.comp_def]

theorem lookup_mapContents :
    (tree.mapContents change).files.lookup here = (tree.files.lookup here).map (change here) := by
  unfold mapContents
  induction tree.files with
  | nil => rfl
  | cons file files ih =>
      rw [List.map_cons, List.lookup_cons, List.lookup_cons, ih]
      cases h : here == file.1 with
      | true => simp [eq_of_beq h]
      | false => rfl

theorem entry?_mapContents {found : Option Entry} (h : tree.entry? here = found) :
    entry? (tree.mapContents change) here = found.map (Entry.withContent (change here)) := by
  subst h
  unfold entry?
  rw [lookup_mapContents, isDirectoryAt_mapContents]
  cases tree.files.lookup here with
  | some content => rfl
  | none => cases tree.isDirectoryAt here <;> rfl

@[simp] theorem follow_mapContents {names : List (List Char)} :
    (tree.mapContents change).follow here names = tree.follow here names := by
  induction names generalizing here with
  | nil => rfl
  | cons name names ih =>
      rw [follow, follow, entry?_mapContents rfl]
      cases tree.entry? here with
      | none => rfl
      | some entry =>
          cases entry with
          | file content => rfl
          | directory => simp only [Option.map_some, Entry.withContent, ih]

@[simp] theorem locate_mapContents {path : String} :
    (tree.mapContents change).locate path = tree.locate path := by
  simp only [locate, follow_mapContents]

@[simp] theorem locateTarget_mapContents {path : String} :
    (tree.mapContents change).locateTarget path = tree.locateTarget path := by
  simp only [locateTarget, follow_mapContents]

theorem Proper.mapContents (h : tree.Proper) : (tree.mapContents change).Proper := by
  obtain ⟨hname, hnodup, hapart⟩ := h
  constructor
  case isName => exact List.forall_mem_map.mpr hname
  case nodup => simpa [FileTree.mapContents, Function.comp_def] using hnodup
  case apart =>
    refine List.forall_mem_map.mpr fun file hmem => ?_
    rw [isDirectoryAt_mapContents]
    exact hapart file hmem

theorem mapContents_mapContents :
    (tree.mapContents change).mapContents next =
      tree.mapContents fun location content => next location (change location content) := by
  simp [mapContents, Function.comp_def]

/-- Two changes come to the same tree when they agree on what it has. -/
theorem mapContents_congr
    (h : ∀ file ∈ tree.files, change file.1 file.2 = next file.1 file.2) :
    tree.mapContents change = tree.mapContents next := by
  have hfiles : tree.files.map (fun file => (file.1, change file.1 file.2)) =
      tree.files.map fun file => (file.1, next file.1 file.2) :=
    List.map_congr_left fun file hmem => by rw [h file hmem]
  simp only [mapContents, hfiles]

theorem mapContents_id : tree.mapContents (fun _ => id) = tree := by
  simp [mapContents]

/-! ## The files of a proper tree -/

theorem mem_files_of_entry? (h : tree.entry? location = some (.file content)) :
    (location, content) ∈ tree.files := by
  unfold entry? at h
  split at h
  next other hlookup =>
    cases h
    exact mem_of_lookup hlookup
  next => split at h <;> cases h

theorem Proper.content_unique (h : tree.Proper) {other : Content}
    (hmem : (location, content) ∈ tree.files) (hother : (location, other) ∈ tree.files) :
    content = other := by
  have hfile := List.inj_on_of_nodup_map h.nodup hmem hother rfl
  exact congrArg Prod.snd hfile

theorem Proper.entry?_of_mem (h : tree.Proper) (hmem : (location, content) ∈ tree.files) :
    tree.entry? location = some (.file content) := by
  unfold entry?
  cases hlookup : tree.files.lookup location with
  | none =>
      have hne := List.lookup_eq_none_iff.mp hlookup _ hmem
      simp at hne
  | some other => rw [h.content_unique hmem (mem_of_lookup hlookup)]

/-- Above a file there are directories. -/
theorem Proper.entry?_of_append_mem (h : tree.Proper) {name : String} {names : List String}
    (hmem : (here ++ name :: names, content) ∈ tree.files) :
    tree.entry? here = some .directory := by
  have hdirectory : tree.isDirectoryAt here = true := by
    unfold isDirectoryAt
    rw [Bool.or_eq_true]
    right
    exact List.any_eq_true.mpr ⟨_, hmem, by simp⟩
  unfold entry?
  split
  next other hlookup =>
    rw [h.apart _ (mem_of_lookup hlookup)] at hdirectory
    cases hdirectory
  next => rw [if_pos hdirectory]

theorem put_eq_map {files : List (Location × Content)} (hnodup : (files.map Prod.fst).Nodup)
    (hmem : location ∈ files.map Prod.fst) :
    put location content files =
      files.map fun file => (file.1, if file.1 = location then content else file.2) := by
  induction files with
  | nil => cases hmem
  | cons file files ih =>
      rw [List.map_cons, List.nodup_cons] at hnodup
      rw [put, List.map_cons]
      by_cases h : file.1 = location
      · -- The files behind it are elsewhere.
        have hrest : files.map (fun file =>
            (file.1, if file.1 = location then content else file.2)) = files := by
          rw [List.map_congr_left (g := id), List.map_id]
          intro other hother
          have hne : other.1 ≠ location := by
            rintro rfl
            exact hnodup.1 (h ▸ List.mem_map_of_mem hother)
          simp [hne]
        rw [if_pos (by simpa using h), hrest, h, if_pos rfl]
      · have hrest : location ∈ files.map Prod.fst :=
          (List.mem_cons.mp hmem).resolve_left (Ne.symm h)
        rw [if_neg (by simpa using h), ih hnodup.2 hrest, if_neg h]

/-- A file that is written has its content replaced. -/
theorem Proper.withFile_eq_mapContents (h : tree.Proper)
    (hmem : (location, content) ∈ tree.files) {new : Content}
    (hat : change location content = new)
    (helse : ∀ other, other ≠ location → change other = id) :
    tree.withFile location new = tree.mapContents change := by
  have hput : put location new tree.files =
      tree.files.map fun file => (file.1, if file.1 = location then new else file.2) :=
    put_eq_map h.nodup (List.mem_map_of_mem hmem)
  rw [withFile, hput]
  change tree.mapContents (fun place old => if place = location then new else old) = _
  refine mapContents_congr ?_
  rintro ⟨place, old⟩ hfile
  by_cases hplace : place = location
  · subst hplace
    rw [if_pos rfl, ← hat, h.content_unique hmem hfile]
  · rw [if_neg hplace, helse place hplace, id]

theorem Proper.withFile_self (h : tree.Proper) (hmem : (location, content) ∈ tree.files) :
    tree.withFile location content = tree :=
  (h.withFile_eq_mapContents hmem rfl fun _ _ => rfl).trans mapContents_id

theorem Proper.exists_withFile_eq (h : tree.Proper) (hmem : (location, content) ∈ tree.files)
    (new : Content) :
    ∃ change, tree.withFile location new = tree.mapContents change ∧
      change location content = new ∧ ∀ other, other ≠ location → change other = id := by
  have hat : (fun place => if place = location then fun _ => new else id) location content =
      new := by
    simp
  have helse : ∀ other, other ≠ location →
      (fun place => if place = location then fun _ => new else id) other = (id : Content → _) :=
    fun other hne => if_neg hne
  exact ⟨_, h.withFile_eq_mapContents hmem hat helse, hat, helse⟩

end FileTree

end Marginalia
