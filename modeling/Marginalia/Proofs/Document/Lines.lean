import Marginalia.Document

/-! # Lines with their endings

A text is a sequence of lines, each with what ends it. A document keeps the texts of the lines
only and one ending for all of them, so this is what a document can be compared with. Texts are
taken apart from the front: a first line with its ending, and a text behind it.
-/

namespace Marginalia

/-- A line with what ends it. Nothing ends a last line that no line feed follows. -/
structure EndedLine where
  text : List Char
  ending : Option LineEnding
  deriving DecidableEq, Repr

namespace EndedLine

/-- The characters that end the line. -/
def endingChars (line : EndedLine) : List Char := (line.ending.map LineEnding.chars).getD []

/-- The lines with a character before the first one. -/
def prepend (c : Char) : List EndedLine → List EndedLine
  | [] => [⟨[c], none⟩]
  | line :: lines => { line with text := c :: line.text } :: lines

end EndedLine

namespace Document

/-- The lines of a text with their endings: a line feed, or a carriage return and a line
feed. -/
def endedLines : List Char → List EndedLine
  | [] => []
  | '\n' :: rest => ⟨[], some .lf⟩ :: endedLines rest
  | '\r' :: '\n' :: rest => ⟨[], some .crlf⟩ :: endedLines rest
  | c :: rest => EndedLine.prepend c (endedLines rest)

/-- How a text is made of lines with their endings, from the front. -/
inductive Lined : List Char → List EndedLine → Prop
  | nothing : Lined [] []
  | unended {text : List Char} : text ≠ [] → '\n' ∉ text → Lined text [⟨text, none⟩]
  | ended {text rest : List Char} {ending : LineEnding} {lines : List EndedLine} :
      '\n' ∉ text → (ending = .lf → text.getLast? ≠ some '\r') → Lined rest lines →
      Lined (text ++ ending.chars ++ rest) (⟨text, some ending⟩ :: lines)

variable {text rest : List Char} {ending : LineEnding} {lines : List EndedLine}

theorem Lined.prepend {c : Char} (h : Lined rest lines) (hfeed : c ≠ '\n')
    (hreturn : c = '\r' → rest.head? ≠ some '\n') :
    Lined (c :: rest) (EndedLine.prepend c lines) := by
  cases h with
  | nothing =>
      apply Lined.unended (List.cons_ne_nil c [])
      simpa using hfeed.symm
  | unended hne hfree =>
      apply Lined.unended (List.cons_ne_nil c rest)
      simpa using ⟨hfeed.symm, hfree⟩
  | @ended text rest ending lines hfree hlast hrest =>
      have hfree' : '\n' ∉ c :: text := by simpa using ⟨hfeed.symm, hfree⟩
      refine Lined.ended hfree' ?_ hrest
      -- The new character is the last one of its line when the line was empty.
      intro hlf
      cases text with
      | nil =>
          subst hlf
          intro hc
          exact hreturn (by simpa using hc) rfl
      | cons first text =>
          rw [List.getLast?_cons_cons]
          exact hlast hlf

theorem endedLines_cons {c : Char} (hfeed : c ≠ '\n')
    (hreturn : c = '\r' → rest.head? ≠ some '\n') :
    endedLines (c :: rest) = EndedLine.prepend c (endedLines rest) := by
  rw [endedLines]
  · exact hfeed
  · intro rest' hc hrest
    exact hreturn hc (by rw [hrest, List.head?_cons])

theorem lined_endedLines (text : List Char) : Lined text (endedLines text) := by
  induction text using endedLines.induct with
  | case1 => exact .nothing
  | case2 rest ih => exact @Lined.ended [] rest .lf _ (by simp) (by simp) ih
  | case3 rest ih => exact @Lined.ended [] rest .crlf _ (by simp) (by simp) ih
  | case4 c rest hfeed hreturn ih =>
      have hhead : c = '\r' → rest.head? ≠ some '\n' := by
        intro hc hhead
        obtain ⟨rest', rfl⟩ := List.head?_eq_some_iff.mp hhead
        exact hreturn rest' hc rfl
      rw [endedLines_cons hfeed hhead]
      exact ih.prepend hfeed hhead

theorem endedLines_unended (hne : text ≠ []) (hfree : '\n' ∉ text) :
    endedLines text = [⟨text, none⟩] := by
  induction text with
  | nil => exact absurd rfl hne
  | cons c text ih =>
      have hfree' := List.not_mem_of_not_mem_cons hfree
      have hhead : text.head? ≠ some '\n' := fun h => hfree' (List.mem_of_head? h)
      rw [endedLines_cons (List.ne_of_not_mem_cons hfree).symm fun _ => hhead]
      by_cases hnil : text = []
      · subst hnil
        rfl
      · rw [ih hnil hfree']
        rfl

/-- A character of a line stands before no line feed, unless it is a carriage return that
belongs to the ending. -/
theorem head?_ne_of_ended {c : Char} (hfree : '\n' ∉ text)
    (hlast : ending = .lf → (c :: text).getLast? ≠ some '\r') (hc : c = '\r') :
    (text ++ ending.chars ++ rest).head? ≠ some '\n' := by
  cases text with
  | nil =>
      cases ending with
      | lf => exact absurd (by rw [hc]; rfl) (hlast rfl)
      | crlf => simp [LineEnding.chars]
  | cons d text => simpa using (List.ne_of_not_mem_cons hfree).symm

theorem getLast?_ne_of_cons {c d : Char} (h : (c :: text).getLast? ≠ some d) :
    text.getLast? ≠ some d := by
  intro hlast
  apply h
  rw [List.getLast?_cons, hlast, Option.getD_some]

theorem endedLines_ended (hfree : '\n' ∉ text)
    (hlast : ending = .lf → text.getLast? ≠ some '\r') :
    endedLines (text ++ ending.chars ++ rest) = ⟨text, some ending⟩ :: endedLines rest := by
  induction text with
  | nil => cases ending <;> rfl
  | cons c text ih =>
      have hfree' := List.not_mem_of_not_mem_cons hfree
      have hothers := ih hfree' fun hlf => getLast?_ne_of_cons (hlast hlf)
      rw [List.cons_append, List.cons_append,
        endedLines_cons (List.ne_of_not_mem_cons hfree).symm (head?_ne_of_ended hfree' hlast),
        hothers]
      rfl

/-- Whatever is put before an ending is one line, so that the lines behind it stay. -/
theorem exists_endedLines_append (hfree : '\n' ∉ text) :
    ∃ first, endedLines (text ++ ending.chars ++ rest) = first :: endedLines rest := by
  by_cases hlast : ending = .lf ∧ text.getLast? = some '\r'
  · -- The carriage return at its end becomes a part of the ending.
    obtain ⟨rfl, hlast⟩ := hlast
    obtain ⟨init, rfl⟩ := List.getLast?_eq_some_iff.mp hlast
    have hfree' : '\n' ∉ init := fun h => hfree (List.mem_append_left _ h)
    have hcrlf : init ++ ['\r'] ++ LineEnding.lf.chars ++ rest =
        init ++ LineEnding.crlf.chars ++ rest := by
      rw [List.append_assoc init]
      rfl
    rw [hcrlf]
    exact ⟨_, endedLines_ended hfree' (fun h => by cases h)⟩
  · exact ⟨_, endedLines_ended hfree fun hlf hreturn => hlast ⟨hlf, hreturn⟩⟩

theorem chars_ne_nil : ending.chars ≠ [] := by
  cases ending <;> exact List.cons_ne_nil _ _

theorem Lined.eq_nil (h : Lined text lines) (hnil : text = []) : lines = [] := by
  cases h with
  | nothing => rfl
  | unended hne _ => exact absurd hnil hne
  | ended _ _ _ =>
      rw [List.append_eq_nil_iff, List.append_eq_nil_iff] at hnil
      exact absurd hnil.1.2 chars_ne_nil

theorem Lined.ne_nil (h : Lined text lines) (hne : text ≠ []) : lines ≠ [] := by
  cases h with
  | nothing => exact absurd rfl hne
  | unended _ _ => exact List.cons_ne_nil _ _
  | ended _ _ _ => exact List.cons_ne_nil _ _

/-! ## What a document keeps of the lines -/

theorem splitLines_of_not_mem (hfree : '\n' ∉ text) : splitLines text = [text] := by
  induction text with
  | nil => rfl
  | cons c text ih =>
      have hc : c ≠ '\n' := (List.ne_of_not_mem_cons hfree).symm
      rw [splitLines, if_neg (by simpa using hc), ih (List.not_mem_of_not_mem_cons hfree)]

theorem splitLines_append (hfree : '\n' ∉ text) :
    splitLines (text ++ '\n' :: rest) = text :: splitLines rest := by
  induction text with
  | nil => simp [splitLines]
  | cons c text ih =>
      have hc : c ≠ '\n' := (List.ne_of_not_mem_cons hfree).symm
      rw [List.cons_append, splitLines, if_neg (by simpa using hc),
        ih (List.not_mem_of_not_mem_cons hfree)]

theorem dropLast_of_ne {c : Char} (h : text.getLast? ≠ some c) : dropLast c text = text := by
  rw [dropLast, if_neg (by simpa using h)]

theorem dropLast_concat {c : Char} : dropLast c (text ++ [c]) = text := by
  rw [dropLast, List.getLast?_concat, if_pos (by simp), List.dropLast_concat]

theorem dropLast_append {c : Char} (h : rest = [] → text.getLast? ≠ some c) :
    dropLast c (text ++ rest) = text ++ dropLast c rest := by
  by_cases hrest : rest = []
  · subst hrest
    rw [List.append_nil, dropLast_of_ne (h rfl)]
    simp [dropLast]
  · unfold dropLast
    rw [List.getLast?_append, List.dropLast_append_of_ne_nil hrest,
      List.getLast?_eq_some_getLast hrest, Option.some_or]
    split <;> rfl

/-- An ending is a line feed behind what does not belong to the line either. -/
theorem exists_chars_eq (ending : LineEnding) :
    ∃ mark, ending.chars = mark ++ ['\n'] ∧ '\n' ∉ mark ∧
      ∀ text : List Char, (ending = .lf → text.getLast? ≠ some '\r') →
        dropLast '\r' (text ++ mark) = text := by
  cases ending with
  | lf =>
      refine ⟨[], rfl, by simp, fun text hlast => ?_⟩
      rw [List.append_nil, dropLast_of_ne (hlast rfl)]
  | crlf => exact ⟨['\r'], rfl, by simp, fun text _ => dropLast_concat⟩

theorem linesOf_unended (hne : text ≠ []) (hfree : '\n' ∉ text) :
    linesOf text = [String.ofList (dropLast '\r' (dropLast '\r' text))] := by
  have hlast : text.getLast? ≠ some '\n' := fun h => hfree (List.mem_of_getLast? h)
  have hfree' : '\n' ∉ dropLast '\r' text := by
    unfold dropLast
    split
    · exact fun h => hfree ((List.dropLast_sublist text).subset h)
    · exact hfree
  rw [linesOf, if_neg (by simpa using hne), dropLast_of_ne hlast, splitLines_of_not_mem hfree']
  rfl

/-- A last line loses a carriage return before its ending. -/
theorem linesOf_ended (hfree : '\n' ∉ text) (hlast : ending = .lf → text.getLast? ≠ some '\r') :
    linesOf (text ++ ending.chars) = [String.ofList (dropLast '\r' text)] := by
  obtain ⟨mark, hchars, -, hmark⟩ := exists_chars_eq ending
  rw [linesOf, if_neg (by simp [hchars]), hchars, ← List.append_assoc, dropLast_concat,
    hmark text hlast, splitLines_of_not_mem hfree]
  rfl

/-- A line that another one follows is kept as it is. -/
theorem linesOf_ended_append (hfree : '\n' ∉ text)
    (hlast : ending = .lf → text.getLast? ≠ some '\r') (hrest : rest ≠ []) :
    linesOf (text ++ ending.chars ++ rest) = String.ofList text :: linesOf rest := by
  obtain ⟨mark, hchars, hfree', hmark⟩ := exists_chars_eq ending
  have hreturn : (text ++ ending.chars).getLast? ≠ some '\r' := by
    rw [hchars, ← List.append_assoc, List.getLast?_concat]
    decide
  have hsplit (later : List Char) :
      splitLines (text ++ ending.chars ++ later) = (text ++ mark) :: splitLines later := by
    rw [hchars, ← List.append_assoc, List.append_assoc _ ['\n'], List.singleton_append]
    apply splitLines_append
    simpa using ⟨hfree, hfree'⟩
  -- What is cut off at the end is cut off the rest, as this line ends with a line feed.
  rw [linesOf, if_neg (by simp [hrest]), dropLast_append (fun h => absurd h hrest),
    dropLast_append (fun _ => hreturn), hsplit, List.map_cons, hmark text hlast, linesOf,
    if_neg (by simpa using hrest)]

theorem linesOf_ne_nil (hne : text ≠ []) : linesOf text ≠ [] := by
  have hlined := lined_endedLines text
  generalize endedLines text = lines at hlined
  cases hlined with
  | nothing => exact absurd rfl hne
  | unended hne hfree =>
      rw [linesOf_unended hne hfree]
      exact List.cons_ne_nil _ _
  | @ended line rest ending lines hfree hlast hrest =>
      by_cases hnil : rest = []
      · subst hnil
        rw [List.append_nil, linesOf_ended hfree hlast]
        exact List.cons_ne_nil _ _
      · rw [linesOf_ended_append hfree hlast hnil]
        exact List.cons_ne_nil _ _

theorem Lined.length_linesOf (h : Lined text lines) : (linesOf text).length = lines.length := by
  induction h with
  | nothing => rfl
  | unended hne hfree =>
      rw [linesOf_unended hne hfree]
      rfl
  | @ended text rest own lines hfree hlast hrest ih =>
      by_cases hnil : rest = []
      · have hlines : lines = [] := hrest.eq_nil hnil
        subst hnil hlines
        rw [List.append_nil, linesOf_ended hfree hlast]
        rfl
      · rw [linesOf_ended_append hfree hlast hnil, List.length_cons, ih, List.length_cons]

theorem hasCrlf_cons {c : Char} :
    hasCrlf (c :: rest) = (c == '\r' && rest.head? == some '\n' || hasCrlf rest) := by
  cases rest with
  | nil =>
      rw [List.head?_nil]
      by_cases hc : c = '\r' <;> simp [hasCrlf]
  | cons d rest =>
      by_cases hc : c = '\r'
      · by_cases hd : d = '\n'
        · simp [hasCrlf, hc, hd]
        · rw [hasCrlf]
          · simp [hd]
          · intro rest' _ hcons
            exact hd (List.cons.inj hcons).1
      · rw [hasCrlf]
        · simp [hc]
        · intro rest' heq
          exact absurd heq hc

theorem hasCrlf_append (hfree : '\n' ∉ text) (hlast : ending = .lf → text.getLast? ≠ some '\r') :
    hasCrlf (text ++ ending.chars ++ rest) = (ending == .crlf || hasCrlf rest) := by
  induction text with
  | nil => cases ending <;> simp [LineEnding.chars, hasCrlf_cons]
  | cons c text ih =>
      have hfree' := List.not_mem_of_not_mem_cons hfree
      rw [List.cons_append, List.cons_append, hasCrlf_cons,
        ih hfree' fun hlf => getLast?_ne_of_cons (hlast hlf)]
      by_cases hc : c = '\r'
      · have hhead : (text ++ ending.chars ++ rest).head? ≠ some '\n' :=
          head?_ne_of_ended hfree' hlast hc
        rw [beq_eq_false_iff_ne.mpr hhead, Bool.and_false, Bool.false_or]
      · rw [beq_eq_false_iff_ne.mpr hc, Bool.false_and, Bool.false_or]

theorem hasCrlf_of_not_mem (hfree : '\n' ∉ text) : hasCrlf text = false := by
  induction text with
  | nil => rfl
  | cons c text ih =>
      have hhead : text.head? ≠ some '\n' := fun h =>
        List.not_mem_of_not_mem_cons hfree (List.mem_of_head? h)
      rw [hasCrlf_cons, ih (List.not_mem_of_not_mem_cons hfree)]
      simp [hhead]

/-- A carriage return stands before a line feed where a line ends with both. -/
theorem Lined.hasCrlf_eq (h : Lined text lines) :
    hasCrlf text = lines.any (·.ending == some .crlf) := by
  induction h with
  | nothing => rfl
  | unended hne hfree =>
      rw [hasCrlf_of_not_mem hfree]
      rfl
  | ended hfree hlast hrest ih =>
      rw [hasCrlf_append hfree hlast, ih, List.any_cons]
      rfl

end Document

end Marginalia
