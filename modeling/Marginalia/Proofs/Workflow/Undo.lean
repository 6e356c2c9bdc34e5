import Marginalia.Proofs.Comment.Cover
import Marginalia.Proofs.Workflow.Report

/-! # Undo takes rounds back

Undo answers with the changes of all rounds from the newest one on, and puts the lines back to
where they stood before each. The log bounds how far this goes: it has the newest changes, as
many as its capacity, whatever was in it before.
-/

namespace Marginalia

namespace History

variable {history : History} {count : Nat} {edits : List Edit} {edit : Edit}

/-- Whether the newest entries of the log are the last changes of a list, so many of them at
least. -/
def Keeps (history : History) (count : Nat) (edits : List Edit) : Prop :=
  edits.drop (edits.length - count) <:+ history.entries

theorem keeps_nil : history.Keeps count [] := by
  simp only [Keeps, List.drop_nil, List.nil_suffix]

/-- A full log loses an entry, but none of the last changes that it has room for. -/
theorem Keeps.add (h : history.Keeps history.capacity edits) :
    (history.add edit).Keeps history.capacity (edits ++ [edit]) := by
  by_cases hzero : history.capacity = 0
  · have hall : (edits ++ [edit]).length - history.capacity = (edits ++ [edit]).length := by
      rw [hzero, Nat.sub_zero]
    rw [Keeps, hall, List.drop_length]
    exact List.nil_suffix
  · -- Both logs are compared without the new entry; the shorter end lies in the longer one.
    have hdrop : (edits ++ [edit]).drop ((edits ++ [edit]).length - history.capacity) =
        edits.drop (edits.length + 1 - history.capacity) ++ [edit] := by
      rw [List.length_append, List.length_singleton, List.drop_append_of_le_length (by omega)]
    have hentries : (history.add edit).entries =
        history.entries.drop (history.size + 1 - history.capacity) ++ [edit] := by
      simp [History.add, hzero]
    have hsuffix : edits.drop (edits.length + 1 - history.capacity) <:+ history.entries :=
      (List.drop_suffix_drop_left edits (by omega)).trans h
    have hlength := h.length_le
    rw [Keeps, hdrop, hentries, List.suffix_append_self_iff]
    apply List.suffix_of_suffix_length_le hsuffix (List.drop_suffix _ _)
    simp only [size, List.length_drop] at hlength ⊢
    omega

theorem Keeps.addAll {later : List Edit} (h : history.Keeps history.capacity edits) :
    (history.addAll later).Keeps history.capacity (edits ++ later) := by
  induction later generalizing history edits with
  | nil =>
      rw [List.append_nil]
      exact h
  | cons edit later ih =>
      have hadd : (history.add edit).Keeps (history.add edit).capacity (edits ++ [edit]) := by
        rw [capacity_add]
        exact h.add
      have hall := ih hadd
      rw [capacity_add, List.append_assoc] at hall
      exact hall

@[simp] theorem capacity_addAll {later : List Edit} :
    (history.addAll later).capacity = history.capacity := by
  induction later generalizing history with
  | nil => rfl
  | cons edit later ih => exact ih.trans (capacity_add history edit)

/-- The last change is the newest entry; without it the log keeps the changes before. -/
theorem Keeps.newest (h : history.Keeps (count + 1) (edits ++ [edit])) :
    history.newest? = some edit ∧ history.dropNewest.Keeps count edits := by
  obtain ⟨older, hentries⟩ := h
  have hdrop : (edits ++ [edit]).drop ((edits ++ [edit]).length - (count + 1)) =
      edits.drop (edits.length - count) ++ [edit] := by
    rw [List.length_append, List.length_singleton, Nat.add_sub_add_right,
      List.drop_append_of_le_length (Nat.sub_le _ _)]
  rw [hdrop, ← List.append_assoc] at hentries
  constructor
  · rw [newest?, ← hentries, List.getLast?_concat]
  · refine ⟨older, ?_⟩
    rw [dropNewest, ← hentries, List.dropLast_concat]

end History

/-- A document that is worked on, and the workflow that works on it. -/
structure Draft (σ : Type) where
  workflow : Workflow σ
  lines : List String

/-- What is asked for in a round. The session may have changed in any way before it: its
translators, what they answer, its cache, and whether it is cancelled. -/
structure Round (σ : Type) where
  prepare : Session σ → Session σ
  options : Options
  language : String

namespace Draft

variable {σ : Type}

/-- Translates the document and makes the changes that are reported. -/
def play (draft : Draft σ) (round : Round σ) : List Edit × Draft σ :=
  let workflow : Workflow σ := { draft.workflow with
    session := round.prepare draft.workflow.session
    options := round.options }
  let (report, workflow) := workflow.translateDocument draft.lines round.language
  (report.edits, ⟨workflow, Edit.applyAll report.edits draft.lines⟩)

/-- Plays rounds one after the other; the changes of all of them in their order. -/
def playAll (draft : Draft σ) : List (Round σ) → List Edit × Draft σ
  | [] => ([], draft)
  | round :: rounds =>
    let (edits, draft) := draft.play round
    let (later, draft) := playAll draft rounds
    (edits ++ later, draft)

/-- Takes changes back one after the other, so many times; the answers in their order. -/
def undoTimes (draft : Draft σ) : Nat → List (Except Failure (Option Edit)) × Draft σ
  | 0 => ([], draft)
  | count + 1 =>
    let (answer, lines, workflow) := draft.workflow.undo draft.lines
    let (answers, draft) := undoTimes ⟨workflow, lines⟩ count
    (answer :: answers, draft)

/-- Whether the document came about by these edits, and the log keeps the last of them. -/
structure Follows (draft : Draft σ) (count : Nat) (edits : List Edit) (start : List String) :
    Prop where
  lines_eq : draft.lines = Edit.applyAll edits start
  fit : Edit.Fit edits start
  keeps : draft.workflow.history.Keeps count edits

variable {draft : Draft σ} {count : Nat} {edits : List Edit} {start : List String}

/-- The step of the run: a round adds its edits at the end. -/
theorem Follows.play (h : draft.Follows draft.workflow.history.capacity edits start)
    (round : Round σ) :
    (draft.play round).2.Follows draft.workflow.history.capacity
      (edits ++ (draft.play round).1) start := by
  obtain ⟨hlines, hfit, hkeeps⟩ := h
  constructor
  · rw [Edit.applyAll_append, ← hlines]
    rfl
  · rw [Edit.fit_append, ← hlines]
    exact ⟨hfit, Workflow.fit_translateDocument _ _ _⟩
  · exact hkeeps.addAll

theorem capacity_play (round : Round σ) :
    (draft.play round).2.workflow.history.capacity = draft.workflow.history.capacity :=
  History.capacity_addAll

theorem Follows.playAll (h : draft.Follows draft.workflow.history.capacity edits start)
    (rounds : List (Round σ)) :
    (draft.playAll rounds).2.Follows draft.workflow.history.capacity
      (edits ++ (draft.playAll rounds).1) start := by
  induction rounds generalizing draft edits with
  | nil =>
      simp only [Draft.playAll, List.append_nil]
      exact h
  | cons round rounds ih =>
      have hnext := h.play round
      rw [← capacity_play round] at hnext
      have hall := ih hnext
      rw [capacity_play, List.append_assoc] at hall
      exact hall

/-- One undo answers with the last edit and leaves the document as it was before it. -/
theorem Follows.undo {edit : Edit} (h : draft.Follows (count + 1) (edits ++ [edit]) start) :
    ∃ next : Draft σ, draft.workflow.undo draft.lines =
        (.ok (some edit), next.lines, next.workflow) ∧ next.Follows count edits start := by
  obtain ⟨hlines, hfit, hkeeps⟩ := h
  obtain ⟨hnewest, hrest⟩ := hkeeps.newest
  obtain ⟨hfit, hlast, -⟩ := Edit.fit_append.mp hfit
  rw [Edit.applyAll_append] at hlines
  have hlt : edit.line < draft.lines.length := by
    rw [hlines, Edit.length_applyAll, Edit.length_applyAll]
    obtain ⟨hlt, -⟩ := List.getElem?_eq_some_iff.mp hlast
    rwa [Edit.length_applyAll] at hlt
  refine ⟨⟨{ draft.workflow with history := draft.workflow.history.dropNewest },
    draft.lines.set edit.line edit.before⟩, ?_, ?_, hfit, hrest⟩
  · simp only [Workflow.undo, hnewest, hlt, if_true]
  · simp only [hlines, Edit.applyAll_cons, Edit.applyAll_nil]
    exact Edit.set_before_apply hlast

/-- The run of the undo steps. -/
theorem Follows.undoTimes (h : draft.Follows count edits start) {times : Nat}
    (hedits : times ≤ edits.length) (hcount : times ≤ count) :
    (draft.undoTimes times).1 = (edits.reverse.take times).map (fun edit => .ok (some edit)) ∧
      (draft.undoTimes times).2.lines =
        Edit.applyAll (edits.take (edits.length - times)) start := by
  induction times generalizing draft count edits with
  | zero =>
      simp only [Draft.undoTimes, List.take_zero, List.map_nil, Nat.sub_zero, List.take_length,
        true_and]
      exact h.lines_eq
  | succ times ih =>
      rcases edits.eq_nil_or_concat with rfl | ⟨edits, edit, hconcat⟩
      · cases hedits
      · -- The last edit is the one that is taken back; the others go to the induction.
        rw [List.concat_eq_append] at hconcat
        subst hconcat
        obtain ⟨count, rfl⟩ := Nat.exists_eq_add_one_of_ne_zero (n := count) (by omega)
        obtain ⟨next, hundo, hnext⟩ := h.undo
        rw [List.length_append, List.length_singleton] at hedits
        obtain ⟨hanswers, hlines⟩ := ih hnext (Nat.le_of_succ_le_succ hedits)
          (Nat.le_of_succ_le_succ hcount)
        simp only [Draft.undoTimes, hundo]
        constructor
        · rw [hanswers, List.reverse_append]
          rfl
        · rw [hlines, List.length_append, List.length_singleton, Nat.add_sub_add_right,
            List.take_append_of_le_length (Nat.sub_le _ _)]

/-- After any rounds undo answers with their changes from the newest one on, as many as the
capacity of the log, and each time leaves the lines to which the changes before it lead. When
the log has room for all the changes it leads back to the document. -/
theorem undoTimes_of_playAll {final : Draft σ} {rounds : List (Round σ)}
    (h : draft.playAll rounds = (edits, final)) :
    (∀ times, times ≤ edits.length → times ≤ draft.workflow.history.capacity →
      (final.undoTimes times).1 = (edits.reverse.take times).map (fun edit => .ok (some edit)) ∧
      (final.undoTimes times).2.lines =
        Edit.applyAll (edits.take (edits.length - times)) draft.lines) ∧
    (edits.length ≤ draft.workflow.history.capacity →
      (final.undoTimes edits.length).2.lines = draft.lines) := by
  have hstart : draft.Follows draft.workflow.history.capacity [] draft.lines :=
    ⟨rfl, trivial, History.keeps_nil⟩
  have hfinal := hstart.playAll rounds
  rw [h, List.nil_append] at hfinal
  refine ⟨fun times => hfinal.undoTimes, fun hroom => ?_⟩
  obtain ⟨-, hlines⟩ := hfinal.undoTimes (Nat.le_refl edits.length) hroom
  rw [hlines, Nat.sub_self, List.take_zero, Edit.applyAll_nil]

/-- A short program in which every translation asks once more, and a full log of two changes. -/
def asking (registry : Registry) : Draft Unit where
  workflow := ⟨registry, .answering (· ++ "?"), ⟨2, [⟨7, "old", "new"⟩, ⟨0, "a", "b"⟩]⟩, { }⟩
  lines := ["// one", "int x;", "/* two */"]

/-- Two rounds that change the same lines, and a log with room for the second round only. -/
theorem undoTimes_of_playAll_same_lines :
    ∃ registry edits, ∃ final : Draft Unit, Registry.builtin = .ok registry ∧
      (asking registry).playAll [⟨id, { }, "c"⟩, ⟨id, { target := "fr" }, "c"⟩] = (edits, final) ∧
      edits.length = 4 ∧ final.lines = ["// one??", "int x;", "/* two?? */"] ∧
      (final.undoTimes 2).1 = [.ok (some ⟨2, "/* two? */", "/* two?? */"⟩),
        .ok (some ⟨0, "// one?", "// one??"⟩)] ∧
      (final.undoTimes 2).2.lines = ["// one?", "int x;", "/* two? */"] := by
  obtain ⟨registry, hbuiltin, hplayed⟩ := Registry.exists_builtin
    (fun registry =>
      let played := (asking registry).playAll [⟨id, { }, "c"⟩, ⟨id, { target := "fr" }, "c"⟩]
      played.1 = [⟨0, "// one", "// one?"⟩, ⟨2, "/* two */", "/* two? */"⟩,
        ⟨0, "// one?", "// one??"⟩, ⟨2, "/* two? */", "/* two?? */"⟩] ∧
      played.2.lines = ["// one??", "int x;", "/* two?? */"]) (by decide +kernel)
  replace hplayed := of_decide_eq_true hplayed
  cases hplay : (asking registry).playAll [⟨id, { }, "c"⟩, ⟨id, { target := "fr" }, "c"⟩] with
  | mk edits final =>
      rw [hplay] at hplayed
      obtain ⟨rfl, hlines⟩ := hplayed
      obtain ⟨hanswers, hbefore⟩ := (undoTimes_of_playAll hplay).1 2 (by decide)
        (Nat.le_refl 2)
      exact ⟨registry, _, final, hbuiltin, hplay, rfl, hlines, hanswers, hbefore⟩

end Draft

end Marginalia
