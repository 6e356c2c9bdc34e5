import Marginalia.Proofs.Document.Patch

/-! # Putting edited documents together

A document knows one ending for all lines, and its lines have lost their carriage returns. So
what comes out when it is edited and put together is the text with edited lines only under
conditions on the text and on the edits, which are given here exactly.
-/

namespace Marginalia.Document

/-- Whether the last line has a carriage return in front of its ending. -/
def hasStrayReturn (lines : List EndedLine) : Bool :=
  (lines.getLast?.bind fun line => line.text.getLast?) == some '\r'

/-- When a document can be put together again after edits: its lines end alike, its last line
is edited or has no carriage return of its own, and every edited line is one line and brings no
byte order mark. -/
structure Restorable (content : String) (edits : List Edit) : Prop where
  ending : ∃ ending, ∀ line ∈ endedLines (dropMark content.toList),
    line.ending = none ∨ line.ending = some ending
  lastLine : hasStrayReturn (endedLines (dropMark content.toList)) = true →
    ∃ edit ∈ edits, edit.line + 1 = (endedLines (dropMark content.toList)).length
  oneLine : ∀ edit ∈ edits, '\n' ∉ edit.after.toList
  noMark : markOf content.toList = [] →
    ∀ edit ∈ edits, edit.line = 0 → markOf edit.after.toList = []

variable {text : List Char} {lines : List EndedLine} {own ending : LineEnding}
  {new : Nat → Option (List Char)}

theorem chars_inj : ending.chars = own.chars ↔ own = ending := by
  cases ending <;> cases own <;> decide

/-- No ending begins another one, so that what stands behind them can be compared. -/
theorem chars_append_inj {rest rest' : List Char} :
    ending.chars ++ rest = own.chars ++ rest' ↔ own = ending ∧ rest = rest' := by
  cases ending <;> cases own <;> simp [LineEnding.chars]

theorem getLast?_chars : ending.chars.getLast? = some '\n' := by
  cases ending <;> rfl

theorem dropLast_dropLast_eq_iff {c : Char} :
    dropLast c (dropLast c text) = text ↔ text.getLast? ≠ some c := by
  constructor
  · intro heq hlast
    obtain ⟨init, rfl⟩ := List.getLast?_eq_some_iff.mp hlast
    rw [dropLast_concat] at heq
    have hle : (dropLast c init).length ≤ init.length := by
      unfold dropLast
      split
      · rw [List.length_dropLast]
        exact Nat.sub_le _ _
      · exact Nat.le_refl _
    rw [heq, List.length_append, List.length_singleton] at hle
    exact absurd hle (Nat.not_succ_le_self _)
  · intro hlast
    rw [dropLast_of_ne hlast, dropLast_of_ne hlast]

/-- A last line keeps its ending when that is the one of the document, and loses a carriage
return whatever the ending is. -/
theorem dropLast_append_chars_iff (hreturn : own = .lf → text.getLast? ≠ some '\r') :
    dropLast '\r' text ++ ending.chars = text ++ own.chars ↔
      own = ending ∧ text.getLast? ≠ some '\r' := by
  by_cases hlast : text.getLast? = some '\r'
  · obtain ⟨init, rfl⟩ := List.getLast?_eq_some_iff.mp hlast
    have hcrlf : own = .crlf := by
      cases own with
      | lf => exact absurd hlast (hreturn rfl)
      | crlf => rfl
    have hne : ending.chars ≠ '\r' :: own.chars := by
      rw [hcrlf]
      cases ending <;> decide
    rw [dropLast_concat, List.append_assoc, List.append_cancel_left_eq, List.singleton_append]
    simp [hne, hlast]
  · rw [dropLast_of_ne hlast, List.append_cancel_left_eq, chars_inj]
    simp [hlast]

theorem hasStrayReturn_cons {line : EndedLine} (hne : lines ≠ []) :
    hasStrayReturn (line :: lines) = hasStrayReturn lines := by
  cases lines with
  | nil => exact absurd rfl hne
  | cons next lines => rw [hasStrayReturn, List.getLast?_cons_cons, hasStrayReturn]

/-- The lines of a document when those with the indices become what the function says. -/
def newTexts (new : Nat → Option (List Char)) (lines : List String) : List (List Char) :=
  lines.mapIdx fun index line => (new index).getD line.toList

theorem newTexts_cons {line : String} {lines : List String} :
    newTexts new (line :: lines) =
      (new 0).getD line.toList :: newTexts (fun index => new (index + 1)) lines :=
  List.mapIdx_cons

/-- What a document puts behind its last line. -/
def closing (ending : LineEnding) (text : List Char) : List Char :=
  if text.getLast? == some '\n' then ending.chars else []

theorem closing_append {rest : List Char} (hne : rest ≠ []) :
    closing ending (text ++ rest) = closing ending rest := by
  rw [closing, closing, List.getLast?_append, List.getLast?_eq_some_getLast hne, Option.some_or]

theorem closing_chars : closing ending own.chars = ending.chars := by
  rw [closing, getLast?_chars]
  rfl

/-- A document of a text, put together with new texts, is the text with its lines replaced
exactly when all lines end as the document has it and no carriage return gets lost. -/
theorem Lined.joinLines_eq_iff (h : Lined text lines) :
    joinLines ending.chars (newTexts new (linesOf text)) ++ closing ending text =
      replaceTexts new lines ↔
    (∀ line ∈ lines, line.ending = none ∨ line.ending = some ending) ∧
      (hasStrayReturn lines = true → (new (lines.length - 1)).isSome = true) := by
  induction h generalizing new with
  | nothing => simp [linesOf, newTexts, joinLines, closing, replaceTexts, hasStrayReturn]
  | @unended text hne hfree =>
      have hlast : text.getLast? ≠ some '\n' := fun h => hfree (List.mem_of_getLast? h)
      have hclosing : closing ending text = [] := if_neg (by simpa using hlast)
      rw [linesOf_unended hne hfree, newTexts_cons, hclosing]
      -- Without an ending the line may lose carriage returns, unless it is edited.
      cases hnew : new 0 with
      | some after => simp [newTexts, joinLines, replaceTexts, EndedLine.endingChars, hnew]
      | none =>
          simp [newTexts, joinLines, replaceTexts, EndedLine.endingChars, hnew, hasStrayReturn,
            dropLast_dropLast_eq_iff]
  | @ended text rest own lines hfree hlast hrest ih =>
      by_cases hnil : rest = []
      · have hlines : lines = [] := hrest.eq_nil hnil
        subst hnil hlines
        rw [List.append_nil, linesOf_ended hfree hlast, newTexts_cons, closing_append chars_ne_nil,
          closing_chars]
        -- The last line may lose a carriage return as well, and its ending has to be right.
        cases hnew : new 0 with
        | some after =>
            simp [newTexts, joinLines, replaceTexts, EndedLine.endingChars, hnew, chars_inj]
        | none =>
            simp [newTexts, joinLines, replaceTexts, EndedLine.endingChars, hnew, hasStrayReturn,
              dropLast_append_chars_iff hlast]
      · have hlines : lines ≠ [] := hrest.ne_nil hnil
        -- Before other lines the text is kept, so that only the ending decides.
        have hjoin : joinLines ending.chars (newTexts new (linesOf (text ++ own.chars ++ rest))) =
            (new 0).getD text ++ ending.chars ++ joinLines ending.chars
              (newTexts (fun index => new (index + 1)) (linesOf rest)) := by
          rw [linesOf_ended_append hfree hlast hnil, newTexts_cons, String.toList_ofList]
          cases hnext : newTexts (fun index => new (index + 1)) (linesOf rest) with
          | nil => exact absurd (List.mapIdx_eq_nil_iff.mp hnext) (linesOf_ne_nil hnil)
          | cons next others => rw [joinLines]; simp
        have hlength : (EndedLine.mk text (some own) :: lines).length - 1 =
            lines.length - 1 + 1 := by
          have hpos := List.length_pos_iff.mpr hlines
          rw [List.length_cons]
          omega
        rw [closing_append hnil, hjoin, replaceTexts, EndedLine.endingChars,
          hasStrayReturn_cons hlines, hlength, List.forall_mem_cons, List.append_assoc,
          List.append_assoc, List.append_assoc, List.append_cancel_left_eq]
        have hih := @ih fun index => new (index + 1)
        simp [chars_append_inj, hih, and_assoc]

/-- Whether all lines end as the document has it does not depend on how that was found out. -/
theorem Lined.forall_ending_iff (h : Lined text lines) :
    (∀ line ∈ lines, line.ending = none ∨
        line.ending = some (if hasCrlf text then .crlf else .lf)) ↔
      ∃ ending, ∀ line ∈ lines, line.ending = none ∨ line.ending = some ending := by
  constructor
  · exact fun hall => ⟨_, hall⟩
  · rintro ⟨ending, hall⟩ line hmem
    rcases hall line hmem with hnone | hsome
    · exact Or.inl hnone
    · right
      rw [hsome, h.hasCrlf_eq, Option.some.injEq]
      cases ending with
      | lf =>
          have hnot : lines.any (·.ending == some .crlf) = false := by
            rw [List.any_eq_false]
            intro other hother
            rcases hall other hother with h | h <;> simp [h]
          rw [hnot]
          rfl
      | crlf =>
          have hany : lines.any (·.ending == some .crlf) = true :=
            List.any_eq_true.mpr ⟨line, hmem, by simpa using hsome⟩
          rw [hany]
          rfl

theorem map_toList_applyAll {edits : List Edit} {lines : List String}
    (hlines : edits.Pairwise fun first second => first.line ≠ second.line) :
    (Edit.applyAll edits lines).map String.toList =
      newTexts (textsOf edits) lines := by
  rw [Edit.applyAll_eq_mapIdx hlines, newTexts]
  apply List.ext_getElem?
  intro index
  rw [List.getElem?_map, List.getElem?_mapIdx, List.getElem?_mapIdx, Option.map_map]
  apply congrFun (congrArg Option.map ?_)
  funext line
  rw [textsOf]
  cases Edit.textAt? edits index <;> rfl

/-- The stray carriage return of the last line is safe when that line is edited. -/
theorem isSome_last_iff {edits : List Edit} (hstray : hasStrayReturn lines = true) :
    (Edit.textAt? edits (lines.length - 1)).isSome = true ↔
      ∃ edit ∈ edits, edit.line + 1 = lines.length := by
  have hne : lines ≠ [] := by
    rintro rfl
    cases hstray
  have hpos := List.length_pos_iff.mpr hne
  rw [Edit.isSome_textAt?_iff]
  constructor
  · rintro ⟨edit, hmem, hline⟩
    exact ⟨edit, hmem, by omega⟩
  · rintro ⟨edit, hmem, hline⟩
    exact ⟨edit, hmem, by omega⟩

variable {content : String} {edits : List Edit}

theorem render_eq_patch_iff
    (hlines : edits.Pairwise fun first second => first.line ≠ second.line) :
    { parse content with lines := Edit.applyAll edits (parse content).lines }.render =
        patch edits content ↔
      (∃ ending, ∀ line ∈ endedLines (dropMark content.toList),
        line.ending = none ∨ line.ending = some ending) ∧
      (hasStrayReturn (endedLines (dropMark content.toList)) = true →
        ∃ edit ∈ edits, edit.line + 1 = (endedLines (dropMark content.toList)).length) := by
  have hlined := lined_endedLines (dropMark content.toList)
  have hrender :
      { parse content with lines := Edit.applyAll edits (parse content).lines }.render.toList =
        markOf content.toList ++ (joinLines (parse content).ending.chars
          (newTexts (textsOf edits) (linesOf (dropMark content.toList))) ++
          closing (parse content).ending (dropMark content.toList)) := by
    rw [render, String.toList_ofList, ← map_toList_applyAll hlines, List.append_assoc]
    rfl
  rw [← String.toList_inj, hrender, patch, String.toList_ofList, List.append_cancel_left_eq,
    hlined.joinLines_eq_iff, ← hlined.forall_ending_iff]
  apply and_congr Iff.rfl
  apply imp_congr_right
  intro hstray
  rw [textsOf, Option.isSome_map, isSome_last_iff hstray]

/-- A document that is edited and put together again differs from its text in the edited lines
only exactly when the text and the edits allow for it. -/
theorem rewritesOnly_render_iff
    (hlines : edits.Pairwise fun first second => first.line ≠ second.line)
    (hlt : ∀ edit ∈ edits, edit.line < (parse content).lines.length) :
    RewritesOnly content edits
        { parse content with lines := Edit.applyAll edits (parse content).lines }.render ↔
      Restorable content edits := by
  constructor
  · rintro ⟨hwritten, hmark, hcount⟩
    rw [hwritten] at hmark hcount
    obtain ⟨hending, hlast⟩ := (render_eq_patch_iff hlines).mp hwritten
    exact ⟨hending, hlast, (count_patch_iff hlines hlt).mp hcount,
      (markOf_patch_iff hlines hlt).mp hmark⟩
  · rintro ⟨hending, hlast, hone, hmark⟩
    have hwritten := (render_eq_patch_iff hlines).mpr ⟨hending, hlast⟩
    refine ⟨hwritten, ?_, ?_⟩
    · rw [hwritten]
      exact (markOf_patch_iff hlines hlt).mpr hmark
    · rw [hwritten]
      exact (count_patch_iff hlines hlt).mpr hone

end Marginalia.Document
