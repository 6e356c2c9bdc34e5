import Marginalia.Proofs.Document.Edits
import Marginalia.Workflow

/-! # What a report says about its document

The comments of a document stand in the order of their lines, at most one on a line. A report
has an edit for some of them, in the same order, and each edit has the line as it stands in the
document.
-/

namespace Marginalia

/-- A session without a memory in which one provider answers every text by a function. -/
def Session.answering (answer : String → String) : Session Unit where
  translators := [(.google, fun request state =>
    ⟨.ok ⟨answer request.text, none, request.options.target⟩, false, state⟩)]
  pause := fun state => (false, state)
  delay := 0
  cache := { capacity := 0 }
  state := ()

namespace Registry

variable {registry : Registry} {lines : List String} {id : String}

/-- The comment that a line adds to the comments of its document. -/
def commentOn? (registry : Registry) (id : String) (line : String × Nat) : Option (Nat × Comment) :=
  ((registry.extract? line.1 id).filter Comment.isTranslatable).map fun comment =>
    (line.2, comment)

theorem comments_eq_filterMap :
    registry.comments lines id = lines.zipIdx.filterMap (registry.commentOn? id) := by
  unfold comments
  congr
  funext ⟨line, index⟩
  simp only [commentOn?]
  cases registry.extract? line id with
  | none => rfl
  | some comment => cases h : comment.isTranslatable <;> simp [Option.filter, h]

theorem commentOn?_eq_some_iff {line : String × Nat} {entry : Nat × Comment} :
    registry.commentOn? id line = some entry ↔ entry.1 = line.2 ∧
      registry.extract? line.1 id = some entry.2 ∧ entry.2.isTranslatable = true := by
  obtain ⟨index, comment⟩ := entry
  simp only [commentOn?, Option.map_eq_some_iff, Option.filter_eq_some_iff, Prod.mk.injEq]
  constructor
  · rintro ⟨found, hfound, rfl, rfl⟩
    exact ⟨rfl, hfound⟩
  · rintro ⟨rfl, hfound⟩
    exact ⟨comment, hfound, rfl, rfl⟩

/-- A listed comment is what is found on its line, and has something to translate. -/
theorem mem_comments {entry : Nat × Comment} :
    entry ∈ registry.comments lines id ↔ ∃ line, lines[entry.1]? = some line ∧
      registry.extract? line id = some entry.2 ∧ entry.2.isTranslatable = true := by
  rw [comments_eq_filterMap, List.mem_filterMap]
  constructor
  · rintro ⟨⟨line, index⟩, hmem, hfound⟩
    obtain ⟨hindex, hfound⟩ := commentOn?_eq_some_iff.mp hfound
    rw [hindex]
    exact ⟨line, List.mk_mem_zipIdx_iff_getElem?.mp hmem, hfound⟩
  · rintro ⟨line, hline, hfound⟩
    refine ⟨(line, entry.1), List.mk_mem_zipIdx_iff_getElem?.mpr hline, ?_⟩
    exact commentOn?_eq_some_iff.mpr ⟨rfl, hfound⟩

theorem pairwise_comments :
    (registry.comments lines id).Pairwise fun first second => first.1 < second.1 := by
  have hindices : lines.zipIdx.Pairwise fun first second => first.2 < second.2 := by
    rw [List.pairwise_iff_getElem]
    intro i j hi hj hlt
    simpa using hlt
  rw [comments_eq_filterMap]
  apply hindices.filterMap
  intro first second hlt entry hentry entry' hentry'
  obtain ⟨hfirst, -⟩ := commentOn?_eq_some_iff.mp hentry
  obtain ⟨hsecond, -⟩ := commentOn?_eq_some_iff.mp hentry'
  rw [hfirst, hsecond]
  exact hlt

end Registry

namespace Workflow

variable {σ : Type} {lines : List String} {comments : List (Nat × Comment)}
  {outcomes : List (Except Failure Translation)}

theorem editFor_eq_some_iff {comment : Nat × Comment} {outcome : Except Failure Translation}
    {edit : Edit} :
    editFor lines (comment, outcome) = some edit ↔ ∃ translation, outcome = .ok translation ∧
      edit = ⟨comment.1, lines[comment.1]?.getD "", comment.2.withBody translation.text⟩ := by
  obtain ⟨line, comment⟩ := comment
  cases outcome with
  | error failure => simp [editFor]
  | ok translation => simp [editFor, eq_comm]

/-- An edit of a report belongs to the place of its comment in the list. -/
theorem mem_edits_reportOn_iff {edit : Edit} :
    edit ∈ (reportOn lines comments outcomes).edits ↔ ∃ (place : Nat) (comment : Comment)
      (translation : Translation), comments[place]? = some (edit.line, comment) ∧
        outcomes[place]? = some (.ok translation) ∧
        edit.before = lines[edit.line]?.getD "" ∧
        edit.after = comment.withBody translation.text := by
  constructor
  · intro h
    obtain ⟨⟨⟨line, comment⟩, outcome⟩, hmem, hedit⟩ := List.mem_filterMap.mp h
    obtain ⟨translation, rfl, rfl⟩ := editFor_eq_some_iff.mp hedit
    obtain ⟨place, hplace⟩ := List.mem_iff_getElem?.mp hmem
    obtain ⟨hcomment, houtcome⟩ := List.getElem?_zip_eq_some.mp hplace
    exact ⟨place, comment, translation, hcomment, houtcome, rfl, rfl⟩
  · rintro ⟨place, comment, translation, hcomment, houtcome, hbefore, hafter⟩
    have hmem : ((edit.line, comment), .ok translation) ∈ comments.zip outcomes :=
      List.mem_iff_getElem?.mpr ⟨place, List.getElem?_zip_eq_some.mpr ⟨hcomment, houtcome⟩⟩
    refine List.mem_filterMap.mpr ⟨_, hmem, editFor_eq_some_iff.mpr ⟨translation, rfl, ?_⟩⟩
    rw [← hbefore, ← hafter]

/-- An edit of a report replaces the body of a comment by a translation. -/
theorem exists_comment_of_mem_reportOn {edit : Edit}
    (h : edit ∈ (reportOn lines comments outcomes).edits) :
    ∃ comment translation, (edit.line, comment) ∈ comments ∧ .ok translation ∈ outcomes ∧
      edit.before = lines[edit.line]?.getD "" ∧
      edit.after = comment.withBody translation.text := by
  obtain ⟨place, comment, translation, hcomment, houtcome, hbefore, hafter⟩ :=
    mem_edits_reportOn_iff.mp h
  exact ⟨comment, translation, List.mem_iff_getElem?.mpr ⟨place, hcomment⟩,
    List.mem_iff_getElem?.mpr ⟨place, houtcome⟩, hbefore, hafter⟩

/-- The edits stand in the order of their comments. -/
theorem pairwise_reportOn (h : comments.Pairwise fun first second => first.1 < second.1) :
    (reportOn lines comments outcomes).edits.Pairwise fun first second =>
      first.line < second.line := by
  have hzip : (comments.zip outcomes).Pairwise fun first second => first.1.1 < second.1.1 := by
    rw [List.pairwise_iff_getElem] at h ⊢
    intro i j hi hj hlt
    rw [List.length_zip] at hi hj
    simpa using h i j (by omega) (by omega) hlt
  apply hzip.filterMap
  rintro ⟨first, outcome⟩ ⟨second, outcome'⟩ hlt edit hedit edit' hedit'
  obtain ⟨_, -, rfl⟩ := editFor_eq_some_iff.mp hedit
  obtain ⟨_, -, rfl⟩ := editFor_eq_some_iff.mp hedit'
  exact hlt

/-- A line has one place among comments on different lines. -/
theorem place_unique (h : comments.Pairwise fun first second => first.1 < second.1)
    {place other : Nat} {line : Nat} {comment comment' : Comment}
    (hplace : comments[place]? = some (line, comment))
    (hother : comments[other]? = some (line, comment')) : place = other := by
  obtain ⟨hlt, hentry⟩ := List.getElem?_eq_some_iff.mp hplace
  obtain ⟨hlt', hentry'⟩ := List.getElem?_eq_some_iff.mp hother
  rw [List.pairwise_iff_getElem] at h
  rcases Nat.lt_trichotomy place other with hbefore | heq | hbefore
  · have hless := h place other hlt hlt' hbefore
    rw [hentry, hentry'] at hless
    exact absurd hless (Nat.lt_irrefl _)
  · exact heq
  · have hless := h other place hlt' hlt hbefore
    rw [hentry, hentry'] at hless
    exact absurd hless (Nat.lt_irrefl _)

/-- Every edit of a report has the line as it stands in the document. -/
theorem before_of_mem_reportOn {registry : Registry} {language : String} {edit : Edit}
    (h : edit ∈ (reportOn lines (registry.comments lines language) outcomes).edits) :
    lines[edit.line]? = some edit.before := by
  obtain ⟨comment, translation, hcomment, -, hbefore, -⟩ := exists_comment_of_mem_reportOn h
  obtain ⟨line, hline, -⟩ := Registry.mem_comments.mp hcomment
  rw [hline, Option.getD_some] at hbefore
  rw [hline, hbefore]

variable (workflow : Workflow σ) (lines : List String) (language : String)

theorem before_of_mem_translateDocument {edit : Edit}
    (h : edit ∈ (workflow.translateDocument lines language).1.edits) :
    lines[edit.line]? = some edit.before :=
  before_of_mem_reportOn h

theorem pairwise_translateDocument :
    (workflow.translateDocument lines language).1.edits.Pairwise fun first second =>
      first.line < second.line :=
  pairwise_reportOn Registry.pairwise_comments

theorem fit_translateDocument :
    Edit.Fit (workflow.translateDocument lines language).1.edits lines := by
  apply Edit.fit_of_pairwise
  · intro edit hmem
    exact workflow.before_of_mem_translateDocument lines language hmem
  · exact (workflow.pairwise_translateDocument lines language).imp Nat.ne_of_lt

end Workflow

end Marginalia
