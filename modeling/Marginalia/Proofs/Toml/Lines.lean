import Marginalia.Proofs.Toml.Value

/-! # Documents in TOML read back line by line

A document that was written is rows one below the other: the header of a table, a key with its
value, or nothing, as between two tables. Reading the text of rows takes one row after the other,
whichever rows they are, so rows can be left out of a document and it is still read.
-/

namespace Marginalia.Toml

/-- A row of a written document. The text in a value may go over several lines. -/
inductive Row
  | blank
  | header (name : String)
  | pair (key : String) (value : Scalar)

namespace Row

/-- The written form of a row, with the end of its line. -/
def render? : Row → Option String
  | .blank => some "\n"
  | .header name => some ("[" ++ name ++ "]\n")
  | .pair key value => do some (key ++ " = " ++ (← value.render?) ++ "\n")

/-- The line that is read for a row. -/
def line : Row → Line
  | .blank => .blank
  | .header name => .header [name]
  | .pair key value => .pair [key] value.data

def isBlank : Row → Bool
  | .blank => true
  | _ => false

end Row

/-- The text of rows. -/
def layout? : List Row → Option String
  | [] => some ""
  | row :: rows => do some ((← row.render?) ++ (← layout? rows))

/-- Whether a name needs no quotes. -/
def IsBareName (name : String) : Prop := name ≠ "" ∧ ∀ c ∈ name.toList, isBare c = true

instance (name : String) : Decidable (IsBareName name) :=
  decidable_of_iff (name ≠ "" ∧ name.toList.all isBare = true) (by simp [IsBareName])

/-- Whether the names in a row need no quotes. -/
def Row.IsBare : Row → Prop
  | .blank => True
  | .header name | .pair name _ => IsBareName name

/-! ## The rows of tables -/

/-- The rows of a table. -/
def Section.rows (table : Section) : List Row :=
  .header table.name :: table.pairs.map fun (key, value) => .pair key value

/-- The rows of a document, with a blank one between two tables. -/
def documentRows : List Section → List Row
  | [] => []
  | [table] => table.rows
  | table :: tables => table.rows ++ .blank :: documentRows tables

theorem layout?_append (rows others : List Row) :
    layout? (rows ++ others) = (do some ((← layout? rows) ++ (← layout? others))) := by
  induction rows with
  | nil => simp [layout?]
  | cons row rows ih =>
      rw [List.cons_append, layout?, ih, layout?]
      cases row.render? <;> cases layout? rows <;> cases layout? others <;>
        simp [String.append_assoc]

theorem layout?_eq_join (rows : List Row) :
    layout? rows = (rows.mapM Row.render?).map String.join := by
  induction rows with
  | nil => rfl
  | cons row rows ih =>
      rw [layout?, ih, List.mapM_cons]
      cases row.render? with
      | none => rfl
      | some written => cases rows.mapM Row.render? <;> simp

theorem layout?_rows (table : Section) : layout? table.rows = table.render? := by
  have hpairs : (table.pairs.map fun (key, value) => Row.pair key value).mapM Row.render? =
      table.pairs.mapM fun (key, value) => (do
        some (key ++ " = " ++ (← Scalar.render? value) ++ "\n")) :=
    List.mapM_map
  rw [Section.rows, layout?, layout?_eq_join, hpairs, Section.render?]
  cases table.pairs.mapM fun (key, value) => (do
    some (key ++ " = " ++ (← Scalar.render? value) ++ "\n")) with
  | none => rfl
  | some lines => rfl

theorem layout?_documentRows (tables : List Section) :
    layout? (documentRows tables) = render? tables := by
  induction tables with
  | nil => rfl
  | cons table tables ih =>
      cases tables with
      | nil =>
          rw [documentRows, layout?_rows, render?, List.mapM_cons]
          cases table.render? <;> rfl
      | cons next tables =>
          rw [documentRows, layout?_append, layout?, ih, layout?_rows, render?, render?]
          · simp only [List.mapM_cons]
            cases table.render? with
            | none => rfl
            | some first =>
                cases next.render? with
                | none => rfl
                | some second =>
                    cases tables.mapM Section.render? with
                    | none => rfl
                    | some others => simp [Row.render?, String.append_assoc]
          · simp

theorem filter_documentRows (tables : List Section) :
    (documentRows tables).filter (!·.isBlank) = tables.flatMap Section.rows := by
  have hrows (table : Section) : table.rows.filter (!·.isBlank) = table.rows := by
    apply List.filter_eq_self.mpr
    intro row hrow
    rcases List.mem_cons.mp hrow with rfl | hrow
    · rfl
    · obtain ⟨pair, -, rfl⟩ := List.mem_map.mp hrow
      rfl
  induction tables with
  | nil => rfl
  | cons table tables ih =>
      cases tables with
      | nil => simp [documentRows, hrows]
      | cons next tables =>
          rw [documentRows, List.filter_append, List.filter_cons, ih, hrows]
          · rfl
          · simp

/-! ## What can be written -/

/-- Whether a value has a written form: a count must fit the signed 64 bits. -/
def Scalar.Fits : Scalar → Prop
  | .text _ => True
  | .count value => value < Nat.pow 2 63

/-- Whether a row has a written form. -/
def Row.Fits : Row → Prop
  | .blank | .header _ => True
  | .pair _ value => value.Fits

theorem Scalar.exists_render_iff (scalar : Scalar) :
    (∃ written, scalar.render? = some written) ↔ scalar.Fits := by
  cases scalar with
  | text value => simp [render?, Fits]
  | count value =>
      simp only [render?, Fits, Option.ite_none_right_eq_some, exists_and_left]
      exact and_iff_left ⟨_, rfl⟩

theorem Row.exists_render_iff (row : Row) :
    (∃ written, row.render? = some written) ↔ row.Fits := by
  cases row with
  | blank | header => simp [render?, Fits]
  | pair key value =>
      rw [Row.Fits, ← Scalar.exists_render_iff, render?]
      cases value.render? <;> simp

theorem exists_layout_iff (rows : List Row) :
    (∃ written, layout? rows = some written) ↔ ∀ row ∈ rows, row.Fits := by
  induction rows with
  | nil => simp [layout?]
  | cons row rows ih =>
      rw [List.forall_mem_cons, ← ih, ← Row.exists_render_iff, layout?]
      cases row.render? <;> cases layout? rows <;> simp

/-! ## One row -/

variable {name : String} {row : Row} {c : Char} {rest : List Char}

theorem ne_of_isBare {other : Char} (h : isBare c = true) (hother : isBare other = false) :
    c ≠ other := by
  intro heq
  rw [heq, hother] at h
  cases h

theorem IsBareName.toList_eq_cons (h : IsBareName name) :
    ∃ first others, name.toList = first :: others ∧ isBare first = true := by
  cases hname : name.toList with
  | nil => exact absurd (String.toList_eq_nil_iff.mp hname) h.1
  | cons first others =>
      exact ⟨first, others, rfl, h.2 first (hname ▸ List.mem_cons_self)⟩

theorem skipSpaces_of_ne (hspace : c ≠ ' ') (htab : c ≠ '\t') :
    skipSpaces (c :: rest) = c :: rest := by
  simp [skipSpaces, isSpace, hspace, htab]

/-- A bare name with more behind it begins with none of the characters that mean something else. -/
theorem IsBareName.append_ne_cons (h : IsBareName name) {other : Char} (text others : List Char)
    (hother : isBare other = false) : name.toList ++ text ≠ other :: others := by
  obtain ⟨first, following, hname, hfirst⟩ := h.toList_eq_cons
  rw [hname, List.cons_append]
  intro heq
  exact ne_of_isBare hfirst hother (List.head_eq_of_cons_eq heq)

theorem IsBareName.skipSpaces_append (h : IsBareName name) (text : List Char) :
    skipSpaces (name.toList ++ text) = name.toList ++ text := by
  obtain ⟨first, others, hname, hfirst⟩ := h.toList_eq_cons
  rw [hname, List.cons_append]
  exact skipSpaces_of_ne (ne_of_isBare hfirst (by decide)) (ne_of_isBare hfirst (by decide))

theorem readKeyPart_of_isBareName (h : IsBareName name) (hc : isBare c = false) :
    readKeyPart (name.toList ++ c :: rest) = some (name, c :: rest) := by
  have htake : (name.toList ++ c :: rest).takeWhile isBare = name.toList := by
    rw [List.takeWhile_append_of_pos h.2]
    simp [hc]
  rw [readKeyPart]
  · simp [htake, h.1]
  all_goals exact fun others => h.append_ne_cons _ others (by decide)

theorem readKeyParts_of_isBareName (allowance : Nat) (h : IsBareName name)
    (hc : isBare c = false) (hpoint : (skipSpaces (c :: rest)).head? ≠ some '.') :
    readKeyParts (allowance + 1) (name.toList ++ c :: rest) =
      some ([name], skipSpaces (c :: rest)) := by
  have hlast : ∀ others, skipSpaces (c :: rest) ≠ '.' :: others := by
    intro others heq
    exact hpoint (by simp [heq])
  rw [readKeyParts, h.skipSpaces_append, readKeyPart_of_isBareName h hc]
  simp only [Option.bind_eq_bind, Option.bind_some]

theorem readKey_of_isBareName (h : IsBareName name) (hc : isBare c = false)
    (hpoint : (skipSpaces (c :: rest)).head? ≠ some '.') :
    readKey (name.toList ++ c :: rest) = some ([name], skipSpaces (c :: rest)) :=
  readKeyParts_of_isBareName 78 h hc hpoint

theorem readLineEnd_break : readLineEnd ('\n' :: rest) = some rest := by
  simp [readLineEnd, skipSpaces, isSpace, skipComment, afterNewline?]

theorem readLine_header (h : IsBareName name) (rest : List Char) :
    readLine ('[' :: (name.toList ++ ']' :: '\n' :: rest)) = some (.header [name], rest) := by
  have hkey : readKey (name.toList ++ ']' :: '\n' :: rest) = some ([name], ']' :: '\n' :: rest) :=
    readKey_of_isBareName h (by decide) (by simp [skipSpaces, isSpace])
  -- So this is not the header of an element.
  have hnot : ∀ others, name.toList ++ ']' :: '\n' :: rest ≠ '[' :: others := fun others =>
    h.append_ne_cons _ others (by decide)
  rw [readLine, skipSpaces_of_ne (by decide) (by decide)]
  simp [hkey, expect, readLineEnd_break]

theorem readLine_pair {scalar : Scalar} {written : String} (h : IsBareName name)
    (hscalar : scalar.render? = some written) (rest : List Char) :
    readLine (name.toList ++ ' ' :: '=' :: ' ' :: (written.toList ++ '\n' :: rest)) =
      some (.pair [name] scalar.data, rest) := by
  have hkey : readKey (name.toList ++ ' ' :: '=' :: ' ' :: (written.toList ++ '\n' :: rest)) =
      some ([name], '=' :: ' ' :: (written.toList ++ '\n' :: rest)) :=
    readKey_of_isBareName h (by decide) (by simp [skipSpaces, isSpace])
  have hvalue : skipSpaces (' ' :: (written.toList ++ '\n' :: rest)) =
      written.toList ++ '\n' :: rest := by
    obtain ⟨first, others, hwritten, hfirst⟩ := Scalar.toList_eq_cons hscalar
    have hspace : isSpace ' ' = true := by decide
    simp [hwritten, skipSpaces, hfirst, hspace]
  have hnot {other : Char} (others : List Char) (hother : isBare other = false) :
      name.toList ++ ' ' :: '=' :: ' ' :: (written.toList ++ '\n' :: rest) ≠ other :: others :=
    h.append_ne_cons _ others hother
  rw [readLine, h.skipSpaces_append]
  split
  case h_1 heq => simp at heq
  case h_7 =>
    simp [hkey, expect, hvalue, readValue_render _ _ hscalar, readLineEnd_break]
  all_goals
    rename_i heq
    exact absurd heq (hnot _ (by decide))

theorem Row.render?_pair_eq_some {scalar : Scalar} {written : String} :
    (Row.pair name scalar).render? = some written ↔
      ∃ value, scalar.render? = some value ∧ written = name ++ " = " ++ value ++ "\n" := by
  rw [render?]
  cases scalar.render? <;> simp [eq_comm]

theorem readLine_render {written : String} (hbare : row.IsBare)
    (h : row.render? = some written) (rest : List Char) :
    readLine (written.toList ++ rest) = some (row.line, rest) := by
  cases row with
  | blank =>
      cases h
      simp [readLine, skipSpaces, isSpace, Row.line]
  | header name =>
      cases h
      have hread := readLine_header hbare rest
      simpa [Row.line] using hread
  | pair name scalar =>
      obtain ⟨value, hscalar, rfl⟩ := Row.render?_pair_eq_some.mp h
      have hread := readLine_pair hbare hscalar rest
      simpa [Row.line] using hread

/-! ## All rows -/

/-- A row begins with a line break, a bracket or a character of a name, so not with a byte order
mark. -/
theorem Row.toList_eq_cons {written : String} (hbare : row.IsBare)
    (h : row.render? = some written) :
    ∃ first others, written.toList = first :: others ∧ first ≠ '\ufeff' := by
  cases row with
  | blank =>
      cases h
      exact ⟨'\n', [], rfl, by decide⟩
  | header name =>
      cases h
      exact ⟨'[', name.toList ++ [']', '\n'], by simp, by decide⟩
  | pair name scalar =>
      obtain ⟨value, -, rfl⟩ := Row.render?_pair_eq_some.mp h
      obtain ⟨first, others, hname, hfirst⟩ := IsBareName.toList_eq_cons hbare
      refine ⟨first, others ++ " = ".toList ++ value.toList ++ ['\n'], ?_,
        ne_of_isBare hfirst (by decide)⟩
      simp [hname]

theorem layout?_cons_eq_some {rows : List Row} {written : String} :
    layout? (row :: rows) = some written ↔
      ∃ first others, row.render? = some first ∧ layout? rows = some others ∧
        written = first ++ others := by
  rw [layout?]
  cases row.render? <;> cases layout? rows <;> simp [eq_comm]

/-- The run: the rows of a text are read one after the other. -/
theorem readLines_layout {rows : List Row} {written : String} {fuel : Nat}
    (hbare : ∀ row ∈ rows, row.IsBare) (h : layout? rows = some written)
    (hfuel : written.toList.length < fuel) :
    readLines fuel written.toList = some (rows.map Row.line) := by
  induction rows generalizing written fuel with
  | nil =>
      cases h
      simp [readLines]
  | cons row rows ih =>
      obtain ⟨hfirst, hothers⟩ := List.forall_mem_cons.mp hbare
      obtain ⟨first, others, hrow, hrows, rfl⟩ := layout?_cons_eq_some.mp h
      obtain ⟨mark, following, hmark, -⟩ := Row.toList_eq_cons hfirst hrow
      have hlength : 0 < first.toList.length := by simp [hmark]
      rw [String.toList_append, List.length_append] at hfuel
      obtain ⟨fuel, rfl⟩ :=
        Nat.exists_eq_add_one_of_ne_zero (Nat.ne_of_gt (Nat.zero_lt_of_lt hfuel))
      have hless : others.toList.length < fuel := by omega
      have hrest := ih hothers hrows hless
      rw [String.toList_append, readLines, readLine_render hfirst hrow]
      · simp [hrest]
      · intro hnil
        simp [hmark] at hnil

theorem toList_layout_ne {rows : List Row} {written : String} (hbare : ∀ row ∈ rows, row.IsBare)
    (h : layout? rows = some written) (others : List Char) :
    written.toList ≠ '\ufeff' :: others := by
  cases rows with
  | nil =>
      cases h
      simp
  | cons row rows =>
      obtain ⟨first, behind, hrow, -, rfl⟩ := layout?_cons_eq_some.mp h
      obtain ⟨mark, following, hmark, hne⟩ :=
        Row.toList_eq_cons (hbare row List.mem_cons_self) hrow
      simp [hmark, hne]

end Marginalia.Toml
