import Marginalia.Proofs.Document.Edits
import Marginalia.Proofs.Document.Lines

/-! # Texts with edited lines

A text with edited lines has the edited texts in the place of the old ones and is the same
everywhere else: the byte order mark, the other lines and all line endings. New texts that are
one line each leave the number of the lines as it is, and every line where it was.
-/

namespace Marginalia.Document

/-- The byte order mark of a text, if it begins with one. -/
def markOf (text : List Char) : List Char :=
  if text.head? == some '\ufeff' then ['\ufeff'] else []

/-- The text of lines when those with the indices become what the function says. -/
def replaceTexts (new : Nat → Option (List Char)) : List EndedLine → List Char
  | [] => []
  | line :: lines =>
    (new 0).getD line.text ++ line.endingChars ++ replaceTexts (fun index => new (index + 1)) lines

/-- The new texts of edited lines. -/
def textsOf (edits : List Edit) (index : Nat) : Option (List Char) :=
  (Edit.textAt? edits index).map String.toList

/-- The text with edited lines. -/
def patch (edits : List Edit) (content : String) : String :=
  String.ofList <| markOf content.toList ++
    replaceTexts (textsOf edits) (endedLines (dropMark content.toList))

/-- Whether a text differs from another one in the edited lines only, with the same byte order
mark and as many line feeds. -/
structure RewritesOnly (content : String) (edits : List Edit) (written : String) : Prop where
  eq_patch : written = patch edits content
  mark_eq : markOf written.toList = markOf content.toList
  count_eq : written.toList.count '\n' = content.toList.count '\n'

variable {text : List Char} {lines : List EndedLine} {own : LineEnding}
  {new : Nat → Option (List Char)} {content written : String} {edits : List Edit}

theorem textsOf_of_mem {edit : Edit} (hmem : edit ∈ edits)
    (hlines : edits.Pairwise fun first second => first.line ≠ second.line) :
    textsOf edits edit.line = some edit.after.toList := by
  rw [textsOf, Edit.textAt?_of_mem hmem hlines, Option.map_some]

theorem exists_mem_of_textsOf {index : Nat} {after : List Char}
    (h : textsOf edits index = some after) :
    ∃ edit ∈ edits, edit.line = index ∧ edit.after.toList = after := by
  obtain ⟨text, htext, rfl⟩ := Option.map_eq_some_iff.mp h
  obtain ⟨edit, hmem, hline, rfl⟩ := Edit.exists_mem_of_textAt? htext
  exact ⟨edit, hmem, hline, rfl⟩

theorem markOf_append_dropMark (text : List Char) : markOf text ++ dropMark text = text := by
  cases text with
  | nil => rfl
  | cons c text =>
      by_cases hc : c = '\ufeff'
      · subst hc
        rfl
      · have hdrop : dropMark (c :: text) = c :: text := by
          rw [dropMark]
          intro rest heq
          exact hc (List.cons.inj heq).1
        simp [markOf, hdrop, hc]

theorem Lined.replaceTexts_none (h : Lined text lines) :
    replaceTexts (fun _ => none) lines = text := by
  induction h with
  | nothing => rfl
  | unended hne hfree => simp [replaceTexts, EndedLine.endingChars]
  | ended hfree hlast hrest ih => simp [replaceTexts, EndedLine.endingChars, ih]

/-- Without edits a text stays what it is. -/
theorem rewritesOnly_nil_iff : RewritesOnly content [] written ↔ written = content := by
  have hpatch : patch [] content = content := by
    apply String.toList_injective
    rw [patch, String.toList_ofList]
    exact (congrArg _ (lined_endedLines _).replaceTexts_none).trans (markOf_append_dropMark _)
  constructor
  · intro h
    rw [h.eq_patch, hpatch]
  · rintro rfl
    exact ⟨hpatch.symm, rfl, rfl⟩

/-! ## Byte order marks -/

theorem markOf_markOf : markOf (markOf text) = markOf text := by
  unfold markOf
  split <;> rfl

theorem markOf_append (hne : markOf text ≠ []) {later : List Char} :
    markOf (text ++ later) = markOf text := by
  cases text with
  | nil => exact absurd rfl hne
  | cons c text => rfl

theorem markOf_append_chars {later : List Char} :
    markOf (text ++ own.chars ++ later) = markOf text := by
  cases text with
  | nil => cases own <;> rfl
  | cons c text => rfl

/-- Of all new texts only the first can bring a byte order mark. -/
theorem Lined.markOf_replaceTexts_iff (h : Lined text lines) (hmark : markOf text = []) :
    markOf (replaceTexts new lines) = [] ↔
      (lines ≠ [] → ∀ after, new 0 = some after → markOf after = []) := by
  cases h with
  | nothing => simp [replaceTexts, hmark]
  | unended _ _ => cases hnew : new 0 <;> simp [replaceTexts, EndedLine.endingChars, hnew, hmark]
  | ended _ _ _ =>
      rw [markOf_append_chars] at hmark
      rw [replaceTexts, EndedLine.endingChars, Option.map_some, Option.getD_some,
        markOf_append_chars]
      cases hnew : new 0 <;> simp [hmark]

theorem markOf_patch_iff
    (hlines : edits.Pairwise fun first second => first.line ≠ second.line)
    (hlt : ∀ edit ∈ edits, edit.line < (parse content).lines.length) :
    markOf (patch edits content).toList = markOf content.toList ↔
      (markOf content.toList = [] →
        ∀ edit ∈ edits, edit.line = 0 → markOf edit.after.toList = []) := by
  have hlined := lined_endedLines (dropMark content.toList)
  rw [patch, String.toList_ofList]
  by_cases hmark : markOf content.toList = []
  · have hdrop : dropMark content.toList = content.toList := by
      simpa [hmark] using markOf_append_dropMark content.toList
    rw [hmark, List.nil_append, hlined.markOf_replaceTexts_iff (by rw [hdrop, hmark])]
    constructor
    · intro hall _ edit hmem hzero
      have hne : endedLines (dropMark content.toList) ≠ [] := by
        rw [← List.length_pos_iff, ← hlined.length_linesOf]
        exact Nat.lt_of_le_of_lt (Nat.zero_le _) (hlt edit hmem)
      apply hall hne
      rw [← hzero]
      exact textsOf_of_mem hmem hlines
    · intro hall _ after hafter
      obtain ⟨edit, hmem, hzero, rfl⟩ := exists_mem_of_textsOf hafter
      exact hall rfl edit hmem hzero
  · have hkept : markOf (markOf content.toList) ≠ [] := by rwa [markOf_markOf]
    rw [markOf_append hkept, markOf_markOf]
    exact ⟨fun _ hnil => absurd hnil hmark, fun _ => rfl⟩

/-! ## Line feeds -/

theorem count_append_chars {rest : List Char} :
    (text ++ own.chars ++ rest).count '\n' = text.count '\n' + 1 + rest.count '\n' := by
  have hchars : own.chars.count '\n' = 1 := by cases own <;> rfl
  rw [List.count_append, List.count_append, hchars]

/-- New texts add line feeds and take none away. -/
theorem Lined.count_le (h : Lined text lines) :
    text.count '\n' ≤ (replaceTexts new lines).count '\n' := by
  induction h generalizing new with
  | nothing => exact Nat.le_refl _
  | unended hne hfree =>
      rw [List.count_eq_zero.mpr hfree]
      exact Nat.zero_le _
  | ended hfree hlast hrest ih =>
      have hle := @ih fun index => new (index + 1)
      rw [replaceTexts, EndedLine.endingChars, Option.map_some, Option.getD_some,
        count_append_chars, count_append_chars, List.count_eq_zero.mpr hfree]
      omega

theorem Lined.count_eq_iff (h : Lined text lines) :
    (replaceTexts new lines).count '\n' = text.count '\n' ↔
      ∀ index < lines.length, ∀ after, new index = some after → '\n' ∉ after := by
  induction h generalizing new with
  | nothing => simp [replaceTexts]
  | unended hne hfree =>
      rw [List.count_eq_zero.mpr hfree]
      cases hnew : new 0 with
      | none => simp [replaceTexts, EndedLine.endingChars, hnew, List.count_eq_zero.mpr hfree]
      | some after => simp [replaceTexts, EndedLine.endingChars, hnew, List.count_eq_zero]
  | @ended text rest own lines hfree hlast hrest ih =>
      have hle : rest.count '\n' ≤
          (replaceTexts (fun index => new (index + 1)) lines).count '\n' := hrest.count_le
      have hih := @ih fun index => new (index + 1)
      have hfirst : ((new 0).getD text).count '\n' = 0 ↔
          ∀ after, new 0 = some after → '\n' ∉ after := by
        cases hnew : new 0 with
        | none => simpa using List.count_eq_zero.mpr hfree
        | some after => simp [List.count_eq_zero]
      simp only [replaceTexts, EndedLine.endingChars, Option.map_some, Option.getD_some,
        count_append_chars, List.count_eq_zero.mpr hfree]
      constructor
      · intro hcount index hlt after hafter
        cases index with
        | zero => exact hfirst.mp (by omega) after hafter
        | succ index =>
            rw [List.length_cons, Nat.add_lt_add_iff_right] at hlt
            exact hih.mp (by omega) index hlt after hafter
      · intro hall
        have hzero := hfirst.mpr (hall 0 (Nat.succ_pos _))
        have hothers := hih.mpr fun index hlt => hall (index + 1) (Nat.succ_lt_succ hlt)
        omega

theorem count_eq_add (text : List Char) :
    text.count '\n' = (markOf text).count '\n' + (dropMark text).count '\n' := by
  rw [← List.count_append, markOf_append_dropMark]

theorem count_patch_iff (hlines : edits.Pairwise fun first second => first.line ≠ second.line)
    (hlt : ∀ edit ∈ edits, edit.line < (parse content).lines.length) :
    (patch edits content).toList.count '\n' = content.toList.count '\n' ↔
      ∀ edit ∈ edits, '\n' ∉ edit.after.toList := by
  have hlined := lined_endedLines (dropMark content.toList)
  rw [patch, String.toList_ofList, count_eq_add content.toList, List.count_append,
    Nat.add_left_cancel_iff, hlined.count_eq_iff]
  constructor
  · intro hall edit hmem
    have hindex : edit.line < (endedLines (dropMark content.toList)).length := by
      rw [← hlined.length_linesOf]
      exact hlt edit hmem
    exact hall edit.line hindex _ (textsOf_of_mem hmem hlines)
  · intro hall index _ after hafter
    obtain ⟨edit, hmem, -, rfl⟩ := exists_mem_of_textsOf hafter
    exact hall edit hmem

/-! ## The other lines -/

/-- With new texts that are one line each every other line stays where it was, with its text
and its ending. -/
theorem Lined.getElem?_endedLines (h : Lined text lines)
    (hnew : ∀ index < lines.length, ∀ after, new index = some after → '\n' ∉ after)
    {index : Nat} (hindex : new index = none) :
    (endedLines (replaceTexts new lines))[index]? = lines[index]? := by
  induction h generalizing new index with
  | nothing => rfl
  | @unended text hne hfree =>
      rw [replaceTexts, replaceTexts, EndedLine.endingChars, Option.map_none, Option.getD_none,
        List.append_nil, List.append_nil]
      cases hzero : new 0 with
      | none => rw [Option.getD_none, endedLines_unended hne hfree]
      | some after =>
          -- The new text is one line at most, and what is asked for lies behind it.
          have hpos : 0 < index := by
            apply Nat.pos_of_ne_zero
            rintro rfl
            rw [hzero] at hindex
            cases hindex
          have hlength : (endedLines after).length ≤ 1 := by
            by_cases hnil : after = []
            · rw [hnil]
              exact Nat.zero_le _
            · rw [endedLines_unended hnil (hnew 0 Nat.one_pos after hzero)]
              exact Nat.le_refl _
          rw [Option.getD_some, List.getElem?_eq_none (by omega),
            List.getElem?_eq_none hpos]
  | @ended text rest own lines hfree hlast hrest ih =>
      rw [replaceTexts, EndedLine.endingChars, Option.map_some, Option.getD_some]
      cases index with
      | zero =>
          rw [hindex, Option.getD_none, endedLines_ended hfree hlast]
          rfl
      | succ index =>
          have hfirst : '\n' ∉ (new 0).getD text := by
            cases hzero : new 0 with
            | none => exact hfree
            | some after => exact hnew 0 (Nat.succ_pos _) after hzero
          obtain ⟨first, hsplit⟩ := exists_endedLines_append hfirst
          rw [hsplit, List.getElem?_cons_succ, List.getElem?_cons_succ]
          exact ih (fun index hlt => hnew (index + 1) (Nat.succ_lt_succ hlt)) hindex

/-- What is said of the text as a whole holds of each line: one that is not edited is the same,
with its ending. -/
theorem RewritesOnly.getElem?_endedLines (h : RewritesOnly content edits written) {index : Nat}
    (hindex : ∀ edit ∈ edits, edit.line ≠ index) :
    (endedLines (dropMark written.toList))[index]? =
      (endedLines (dropMark content.toList))[index]? := by
  have hlined := lined_endedLines (dropMark content.toList)
  have hwritten : written.toList = markOf content.toList ++
      replaceTexts (textsOf edits) (endedLines (dropMark content.toList)) := by
    rw [h.eq_patch, patch, String.toList_ofList]
  have hdrop : dropMark written.toList =
      replaceTexts (textsOf edits) (endedLines (dropMark content.toList)) := by
    have hparts := markOf_append_dropMark written.toList
    rw [h.mark_eq, hwritten] at hparts
    rw [hwritten]
    exact List.append_cancel_left hparts
  have hcount := h.count_eq
  rw [hwritten, List.count_append, count_eq_add content.toList, Nat.add_left_cancel_iff] at hcount
  rw [hdrop]
  apply hlined.getElem?_endedLines (hlined.count_eq_iff.mp hcount)
  rw [textsOf, Edit.textAt?_eq_none hindex, Option.map_none]

end Marginalia.Document
