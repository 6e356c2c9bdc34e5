import Marginalia.Document

/-! # Edits one after the other

Edits fit a document when each of them has the line as the edits before it leave it. The edits
of a report fit because no two of them share a line, and edits that fit can be taken back from
the last one on.
-/

namespace Marginalia.Edit

variable {edit : Edit} {edits : List Edit} {lines : List String} {index : Nat}

@[simp] theorem length_apply : (edit.apply lines).length = lines.length := List.length_set

@[simp] theorem applyAll_nil : applyAll [] lines = lines := rfl

@[simp] theorem applyAll_cons :
    applyAll (edit :: edits) lines = applyAll edits (edit.apply lines) := rfl

theorem applyAll_append {later : List Edit} :
    applyAll (edits ++ later) lines = applyAll later (applyAll edits lines) :=
  List.foldl_append

@[simp] theorem length_applyAll : (applyAll edits lines).length = lines.length := by
  induction edits generalizing lines with
  | nil => rfl
  | cons edit edits ih =>
      rw [applyAll_cons, ih]
      exact length_apply

/-- Whether each edit has its line as the edits before it leave it. -/
def Fit : List Edit → List String → Prop
  | [], _ => True
  | edit :: edits, lines =>
    lines[edit.line]? = some edit.before ∧ Fit edits (edit.apply lines)

theorem fit_append {later : List Edit} :
    Fit (edits ++ later) lines ↔ Fit edits lines ∧ Fit later (applyAll edits lines) := by
  induction edits generalizing lines with
  | nil => simp only [List.nil_append, applyAll_nil, Fit, true_and]
  | cons edit edits ih =>
      simp only [List.cons_append, applyAll_cons, Fit]
      rw [ih, and_assoc]

/-- Putting the line back as it was takes an edit back. -/
theorem set_before_apply (h : lines[edit.line]? = some edit.before) :
    (edit.apply lines).set edit.line edit.before = lines := by
  obtain ⟨hlt, hbefore⟩ := List.getElem?_eq_some_iff.mp h
  rw [apply, List.set_set, ← hbefore]
  exact List.set_getElem_self hlt

/-- Edits of different lines that have the lines of one document fit it in any order. -/
theorem fit_of_pairwise (hbefore : ∀ edit ∈ edits, lines[edit.line]? = some edit.before)
    (hlines : edits.Pairwise fun first second => first.line ≠ second.line) :
    Fit edits lines := by
  induction edits generalizing lines with
  | nil => trivial
  | cons edit edits ih =>
      obtain ⟨hne, hlines⟩ := List.pairwise_cons.mp hlines
      refine ⟨hbefore edit List.mem_cons_self, ih ?_ hlines⟩
      intro other hmem
      have hsame : (edit.apply lines)[other.line]? = lines[other.line]? :=
        List.getElem?_set_ne (hne other hmem)
      rw [hsame]
      exact hbefore other (List.mem_cons_of_mem edit hmem)

/-! ## Edits of different lines -/

/-- What the line with the index becomes, if it is edited. -/
def textAt? (edits : List Edit) (index : Nat) : Option String :=
  (edits.find? (·.line == index)).map Edit.after

theorem textAt?_eq_none (h : ∀ edit ∈ edits, edit.line ≠ index) : textAt? edits index = none := by
  rw [textAt?, Option.map_eq_none_iff, List.find?_eq_none]
  simpa using h

theorem textAt?_cons {edit : Edit} :
    textAt? (edit :: edits) index =
      if edit.line = index then some edit.after else textAt? edits index := by
  unfold textAt?
  by_cases h : edit.line = index
  · rw [if_pos h, List.find?_cons_of_pos (by simpa using h), Option.map_some]
  · rw [if_neg h, List.find?_cons_of_neg (by simpa using h)]

theorem textAt?_of_mem (hmem : edit ∈ edits)
    (hlines : edits.Pairwise fun first second => first.line ≠ second.line) :
    textAt? edits edit.line = some edit.after := by
  induction edits with
  | nil => cases hmem
  | cons first edits ih =>
      obtain ⟨hne, hlines⟩ := List.pairwise_cons.mp hlines
      rw [textAt?_cons]
      rcases List.mem_cons.mp hmem with rfl | hmem
      · rw [if_pos rfl]
      · rw [if_neg (hne edit hmem), ih hmem hlines]

theorem exists_mem_of_textAt? {after : String} (h : textAt? edits index = some after) :
    ∃ edit ∈ edits, edit.line = index ∧ edit.after = after := by
  obtain ⟨edit, hfind, hafter⟩ := Option.map_eq_some_iff.mp h
  exact ⟨edit, List.mem_of_find?_eq_some hfind, by simpa using List.find?_some hfind, hafter⟩

theorem isSome_textAt?_iff :
    (textAt? edits index).isSome = true ↔ ∃ edit ∈ edits, edit.line = index := by
  rw [textAt?, Option.isSome_map, List.find?_isSome]
  simp only [beq_iff_eq]

/-- Edits of different lines can be made at once. -/
theorem applyAll_eq_mapIdx
    (hlines : edits.Pairwise fun first second => first.line ≠ second.line) :
    applyAll edits lines = lines.mapIdx fun index line => (textAt? edits index).getD line := by
  induction edits generalizing lines with
  | nil =>
      apply List.ext_getElem?
      intro index
      simp [textAt?]
  | cons edit edits ih =>
      obtain ⟨hne, hlines⟩ := List.pairwise_cons.mp hlines
      rw [applyAll_cons, ih hlines]
      apply List.ext_getElem?
      intro index
      rw [List.getElem?_mapIdx, List.getElem?_mapIdx, apply, List.getElem?_set]
      by_cases h : edit.line = index
      · subst h
        have hnone : textAt? edits edit.line = none :=
          textAt?_eq_none fun other hmem => (hne other hmem).symm
        by_cases hlt : edit.line < lines.length <;> simp [textAt?_cons, hnone, hlt]
      · simp [textAt?_cons, h]

end Marginalia.Edit
