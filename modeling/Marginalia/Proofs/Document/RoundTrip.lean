import Marginalia.Proofs.Document.Restore

/-! # Texts that come back from their documents

Reading a text into a document and writing the document again gives the text back exactly when all
lines end alike and no carriage return stands where reading strips one: at the very end, or before
the ending of the last line. What a document knows of the lines is said here of the characters.
-/

namespace Marginalia.Document

variable {text rest : List Char} {lines : List EndedLine} {content : String}

theorem hasCrlf_eq_true_iff : hasCrlf text = true ↔ ['\r', '\n'] <:+: text := by
  induction text with
  | nil => simp [hasCrlf]
  | cons c text ih =>
      rw [hasCrlf_cons, Bool.or_eq_true, ih, List.infix_cons_iff]
      apply or_congr_left
      rw [Bool.and_eq_true, beq_iff_eq, beq_iff_eq]
      cases text with
      | nil => simp
      | cons d text => simp [List.cons_prefix_cons, eq_comm (a := c), eq_comm (a := d)]

theorem Lined.infix_iff (h : Lined text lines) :
    ['\r', '\n'] <:+: text ↔ ∃ line ∈ lines, line.ending = some .crlf := by
  rw [← hasCrlf_eq_true_iff, h.hasCrlf_eq, List.any_eq_true]
  simp only [beq_iff_eq]

theorem getLast?_append_chars {own : LineEnding} :
    (text ++ own.chars).getLast? = some '\n' := by
  rw [List.getLast?_append, getLast?_chars, Option.some_or]

theorem singleton_suffix_iff {c : Char} : [c] <:+ text ↔ text.getLast? = some c := by
  rw [List.getLast?_eq_some_iff]
  exact exists_congr fun _ => eq_comm

/-- Every line feed has a carriage return before it where no line ends with a line feed alone. -/
theorem Lined.forall_feed_iff (h : Lined text lines) :
    (∀ before after, text = before ++ '\n' :: after → before.getLast? = some '\r') ↔
      ∀ line ∈ lines, line.ending ≠ some .lf := by
  induction h with
  | nothing => simp
  | @unended text _ hfree =>
      have hnone (before after : List Char) : text ≠ before ++ '\n' :: after := by
        rintro rfl
        simp at hfree
      simp [hnone]
  | @ended text rest own lines hfree hlast hrest ih =>
      rw [List.forall_mem_cons, ← ih]
      constructor
      · intro hall
        refine ⟨fun hlf => ?_, fun before after heq => ?_⟩
        · obtain rfl := Option.some.inj hlf
          exact hlast rfl (hall text rest (by simp [LineEnding.chars]))
        · have hbefore := hall (text ++ own.chars ++ before) after (by simp [heq])
          rw [List.getLast?_append, getLast?_append_chars] at hbefore
          cases hend : before.getLast? with
          | none => simp [hend] at hbefore
          | some c => simpa [hend] using hbefore
      · rintro ⟨hown, hall⟩ before after heq
        have hcrlf : own = .crlf := by
          cases own with
          | lf => exact absurd rfl hown
          | crlf => rfl
        have hparts : (text ++ ['\r']) ++ '\n' :: rest = before ++ '\n' :: after := by
          rw [← heq, hcrlf]
          simp [LineEnding.chars]
        -- The line feed is that of the first line, or one behind it.
        rcases List.append_eq_append_iff.mp hparts with ⟨more, rfl, hmore⟩ | ⟨more, hbefore, hmore⟩
        · cases more with
          | nil => simp
          | cons c more =>
              obtain ⟨rfl, hlater⟩ := List.cons.inj hmore
              simp [List.getLast?_append, List.getLast?_cons, hall more after hlater]
        · cases more with
          | nil =>
              rw [List.append_nil] at hbefore
              simp [← hbefore]
          | cons c more =>
              obtain ⟨rfl, -⟩ := List.cons.inj hmore
              have hmem : '\n' ∈ text ++ ['\r'] := by simp [hbefore]
              simp [hfree] at hmem

/-- Behind a line that another one follows the end of the text is the end of what follows. -/
theorem suffix_append_iff (hlast : text.getLast? = some '\n') (hne : rest ≠ []) :
    ['\r', '\r', '\n'] <:+ text ++ rest ↔ ['\r', '\r', '\n'] <:+ rest := by
  refine ⟨?_, fun h => h.trans (List.suffix_append _ _)⟩
  rintro ⟨front, heq⟩
  rcases List.append_eq_append_iff.mp heq with ⟨more, htext, hmore⟩ | ⟨more, -, hmore⟩
  · -- Of the three characters only the last one could end the line.
    match more with
    | [] => exact ⟨[], by simpa using hmore⟩
    | [c] => simp_all
    | [c, d] => simp_all
    | c :: d :: e :: more => simp_all
  · exact ⟨more, hmore.symm⟩

/-- A carriage return at the end, or before the ending of the last line, belongs to that line. -/
theorem Lined.hasStrayReturn_iff (h : Lined text lines) :
    hasStrayReturn lines = true ↔ ['\r'] <:+ text ∨ ['\r', '\r', '\n'] <:+ text := by
  induction h with
  | nothing => simp [hasStrayReturn]
  | @unended text _ hfree =>
      have hfeed : ¬ ['\r', '\r', '\n'] <:+ text := fun h => hfree (h.mem (by simp))
      simp [hasStrayReturn, singleton_suffix_iff, hfeed]
  | @ended text rest own lines hfree hlast hrest ih =>
      by_cases hnil : rest = []
      · have hlines : lines = [] := hrest.eq_nil hnil
        subst hnil hlines
        have hstray : hasStrayReturn [⟨text, some own⟩] = true ↔ ['\r'] <:+ text := by
          simp [hasStrayReturn, singleton_suffix_iff]
        have hend : ¬ ['\r'] <:+ text ++ own.chars := by
          rw [singleton_suffix_iff, getLast?_append_chars]
          simp
        rw [List.append_nil, hstray]
        cases own with
        | lf =>
            have hnot : ¬ ['\r'] <:+ text := by
              rw [singleton_suffix_iff]
              exact hlast rfl
            have hpair : ¬ ['\r', '\r', '\n'] <:+ text ++ LineEnding.lf.chars := by
              change ¬ ['\r', '\r'] ++ ['\n'] <:+ text ++ ['\n']
              rw [List.suffix_append_self_iff]
              exact fun h => hnot ((List.suffix_append ['\r'] ['\r']).trans h)
            simp [hnot, hpair, hend]
        | crlf =>
            have hsame : ['\r', '\r', '\n'] <:+ text ++ LineEnding.crlf.chars ↔
                ['\r'] <:+ text := by
              change ['\r'] ++ ['\r', '\n'] <:+ text ++ ['\r', '\n'] ↔ _
              rw [List.suffix_append_self_iff]
            simp [hsame, hend]
      · rw [hasStrayReturn_cons (hrest.ne_nil hnil), ih,
          suffix_append_iff getLast?_append_chars hnil, singleton_suffix_iff,
          singleton_suffix_iff, List.getLast?_append, List.getLast?_eq_some_getLast hnil,
          Option.some_or]

theorem not_mem_of_mem_splitLines {line : List Char} (h : line ∈ splitLines text) :
    '\n' ∉ line := by
  fun_induction splitLines text generalizing line with
  | case1 =>
      obtain rfl := List.mem_singleton.mp h
      exact List.not_mem_nil
  | case2 c rest hc ih =>
      rcases List.mem_cons.mp h with rfl | h
      · exact List.not_mem_nil
      · exact ih h
  | case3 c rest hc hnil ih =>
      obtain rfl := List.mem_singleton.mp h
      rw [List.mem_singleton]
      exact fun heq => hc (beq_iff_eq.mpr heq.symm)
  | case4 c rest hc first others hsplit ih =>
      rw [hsplit] at ih
      rcases List.mem_cons.mp h with rfl | h
      · rw [List.mem_cons, not_or]
        exact ⟨fun heq => hc (beq_iff_eq.mpr heq.symm), ih List.mem_cons_self⟩
      · exact ih (List.mem_cons_of_mem first h)

/-- No line of a document has a line feed in it. -/
theorem not_mem_of_mem_linesOf {line : String} (h : line ∈ linesOf text) :
    '\n' ∉ line.toList := by
  unfold linesOf at h
  split at h
  next => simp at h
  next =>
    obtain ⟨piece, hpiece, rfl⟩ := List.mem_map.mp h
    rw [String.toList_ofList]
    have hsub : dropLast '\r' piece ⊆ piece := by
      unfold dropLast
      split
      · exact List.dropLast_subset piece
      · exact fun _ h => h
    exact fun hmem => not_mem_of_mem_splitLines hpiece (hsub hmem)

/-! ## When a text comes back -/

/-- Lines end alike when none ends with both characters, or none with a line feed alone. -/
theorem exists_ending_iff :
    (∃ ending, ∀ line ∈ lines, line.ending = none ∨ line.ending = some ending) ↔
      (∀ line ∈ lines, line.ending ≠ some .crlf) ∨ ∀ line ∈ lines, line.ending ≠ some .lf := by
  have hfeed (line : EndedLine) :
      line.ending ≠ some .crlf ↔ line.ending = none ∨ line.ending = some .lf := by
    rcases line.ending with _ | _ | _ <;> simp
  have hboth (line : EndedLine) :
      line.ending ≠ some .lf ↔ line.ending = none ∨ line.ending = some .crlf := by
    rcases line.ending with _ | _ | _ <;> simp
  simp only [hfeed, hboth]
  constructor
  · rintro ⟨_ | _, hall⟩
    · exact Or.inl hall
    · exact Or.inr hall
  · rintro (hall | hall)
    · exact ⟨.lf, hall⟩
    · exact ⟨.crlf, hall⟩

/-- Without edits a document is put together again when its lines end alike and its last line has
no carriage return of its own. -/
theorem restorable_nil_iff :
    Restorable content [] ↔
      (∃ ending, ∀ line ∈ endedLines (dropMark content.toList),
        line.ending = none ∨ line.ending = some ending) ∧
      ¬ hasStrayReturn (endedLines (dropMark content.toList)) = true := by
  constructor
  · rintro ⟨hending, hstray, -, -⟩
    refine ⟨hending, fun h => ?_⟩
    obtain ⟨edit, hmem, -⟩ := hstray h
    cases hmem
  · rintro ⟨hending, hstray⟩
    exact ⟨hending, fun h => absurd h hstray, by simp, by simp⟩

/-- A text comes back from its document exactly when, behind a byte order mark, either it has no
carriage return before a line feed and none at its end, or it has one before every line feed and
before one at least, and neither one at its end nor two before a line feed at its end. And no line
of a document has a line feed in it. -/
theorem render_parse_eq_iff (content : String) :
    let text := dropMark content.toList
    ((parse content).render = content ↔
      (¬ ['\r', '\n'] <:+: text ∧ ¬ ['\r'] <:+ text) ∨
      (['\r', '\n'] <:+: text ∧
        (∀ before after, text = before ++ '\n' :: after → before.getLast? = some '\r') ∧
        ¬ ['\r'] <:+ text ∧ ¬ ['\r', '\r', '\n'] <:+ text)) ∧
    ∀ line ∈ (parse content).lines, '\n' ∉ line.toList := by
  intro text
  have hlined : Lined text (endedLines text) := lined_endedLines text
  refine ⟨?_, fun line hmem => not_mem_of_mem_linesOf hmem⟩
  have hrestorable : (parse content).render = content ↔ Restorable content [] := by
    rw [← rewritesOnly_nil_iff]
    exact rewritesOnly_render_iff .nil (by simp)
  have hnone : (∀ line ∈ endedLines text, line.ending ≠ some .crlf) ↔
      ¬ ['\r', '\n'] <:+: text := by
    simp [hlined.infix_iff]
  rw [hrestorable, restorable_nil_iff, exists_ending_iff, hlined.hasStrayReturn_iff, hnone,
    ← hlined.forall_feed_iff, not_or]
  by_cases hcrlf : ['\r', '\n'] <:+: text
  · simp [hcrlf]
  · -- Two carriage returns before a line feed are one of the pairs that the text does not have.
    have hpair : ¬ ['\r', '\r', '\n'] <:+ text := fun h =>
      hcrlf ((List.suffix_append ['\r'] ['\r', '\n']).trans h).isInfix
    simp [hcrlf, hpair]

-- A carriage return inside a line comes back, and one at the end of the text or of the last line
-- is lost.
example : ["\ufeff\ufeffa\r\r\nb", "a\rb\n", "\r\n", "a\r", "\r\r\n", "a\nb\r\n"].map
    (fun content => (parse content).render == content) =
      [true, true, true, false, false, false] := by
  decide

end Marginalia.Document
