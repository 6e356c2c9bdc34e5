import Marginalia.Proofs.Comment.Cover
import Marginalia.Proofs.Text.Edges

/-! # The forms of comment rules

The rules that are known from the start have two forms. In the open form an opener is followed
by a body up to the end of the line, and in the closed form the body ends before a closing token
at the end of the line. This file says which lines either form takes and where the closing token
of a line goes.
-/

namespace Marginalia

open Pattern

namespace Pattern.Expr

/-- Blanks, possibly none. -/
def blanks : Expr := repeated (one .blank) 0 none true

/-- The characters of a token, and then something else. -/
def token (characters : List Char) (rest : Expr) : Expr :=
  characters.foldr (fun c rest => seq (one (.single c)) rest) rest

/-- A token with blanks on both sides. -/
def padded (characters : List Char) : Expr := seq blanks (token characters blanks)

/-- Two slashes that another slash or an exclamation mark may follow, with blanks on both
sides. -/
def markedSlashes : Expr :=
  seq blanks (token ['/', '/']
    (seq (repeated (one (.union (.union .none (.single '/')) (.single '!'))) 0 (some 1) true)
      blanks))

/-- One character or more on the line. -/
def content (greedy : Bool) : Expr := repeated (one (.complement (.single '\n'))) 1 none greedy

theorem spells_blanks : Lead.Spells blanks.leads fun text => ∀ c ∈ text, Text.isBlank c = true :=
  (spells_repeated_one .blank 0 true).congr fun text => by simp

theorem spells_content (greedy : Bool) :
    Lead.Spells (content greedy).leads fun text => text ≠ [] ∧ '\n' ∉ text := by
  refine (spells_repeated_one _ 1 greedy).congr fun text => and_congr ?_ ?_
  · rw [← List.length_pos_iff]
    exact Iff.rfl
  · simp only [CharSet.contains_complement, CharSet.contains_single, Bool.not_eq_true',
      beq_eq_false_iff_ne]
    exact ⟨fun h hmem => h _ hmem rfl, fun h c hc heq => h (heq ▸ hc)⟩

theorem spells_token (characters : List Char) {rest : Expr} {texts : List Char → Prop}
    (hrest : Lead.Spells rest.leads texts) :
    Lead.Spells (token characters rest).leads
      fun text => ∃ after, text = characters ++ after ∧ texts after := by
  induction characters with
  | nil => exact hrest.congr fun text => by simp
  | cons c characters ih =>
      refine (spells_seq (spells_single c) ih).congr fun text => ?_
      simp

theorem spells_padded (characters : List Char) :
    Lead.Spells (padded characters).leads fun text =>
      ∃ before after, text = before ++ characters ++ after ∧
        (∀ c ∈ before, Text.isBlank c = true) ∧ ∀ c ∈ after, Text.isBlank c = true := by
  refine (spells_seq spells_blanks (spells_token characters spells_blanks)).congr fun text => ?_
  constructor
  · rintro ⟨before, _, rfl, hbefore, after, rfl, hafter⟩
    exact ⟨before, after, by rw [List.append_assoc], hbefore, hafter⟩
  · rintro ⟨before, after, rfl, hbefore, hafter⟩
    exact ⟨before, characters ++ after, by rw [List.append_assoc], hbefore, after, rfl, hafter⟩

/-- An expression that opens a comment with a token: blanks, the token and perhaps more. It
passes the token behind blanks. -/
structure Opener (expr : Expr) (characters : List Char) : Prop where
  groupCount_eq : expr.groupCount = 0
  exists_eq_of_takes : ∀ {text}, Lead.Takes expr.leads text →
    ∃ before after, text = before ++ characters ++ after ∧ ∀ c ∈ before, Text.isBlank c = true
  exists_spells : ∃ texts, Lead.Spells expr.leads texts ∧
    ∀ before, (∀ c ∈ before, Text.isBlank c = true) → texts (before ++ characters)

theorem groupCount_token (characters : List Char) (rest : Expr) :
    (token characters rest).groupCount = rest.groupCount := by
  induction characters with
  | nil => rfl
  | cons c characters ih => exact (Nat.zero_add _).trans ih

theorem groupCount_padded (characters : List Char) : (padded characters).groupCount = 0 :=
  (Nat.zero_add _).trans (groupCount_token characters blanks)

theorem opener_padded (characters : List Char) : Opener (padded characters) characters where
  groupCount_eq := groupCount_padded characters
  exists_eq_of_takes htakes := by
    obtain ⟨before, after, htext, hbefore, -⟩ := (spells_padded characters).of_takes htakes
    exact ⟨before, after, htext, hbefore⟩
  exists_spells :=
    ⟨_, spells_padded characters, fun before hbefore => ⟨before, [], by simp, hbefore, by simp⟩⟩

theorem opener_blanks : Opener blanks [] where
  groupCount_eq := rfl
  exists_eq_of_takes {text} htakes :=
    ⟨text, [], by simp, spells_blanks.of_takes htakes⟩
  exists_spells := ⟨_, spells_blanks, fun before hbefore => by simpa using hbefore⟩

theorem opener_markedSlashes : Opener markedSlashes ['/', '/'] := by
  have hspells := spells_seq spells_blanks
    (spells_token ['/', '/'] (spells_seq (spells_optional_one
      (.union (.union .none (.single '/')) (.single '!')) true) spells_blanks))
  refine ⟨rfl, fun htakes => ?_, _, hspells, fun before hbefore => ?_⟩
  · obtain ⟨before, _, rfl, hbefore, after, rfl, -⟩ := hspells.of_takes htakes
    exact ⟨before, after, by rw [List.append_assoc], hbefore⟩
  · exact ⟨before, ['/', '/'], rfl, hbefore, [], rfl, [], [], rfl, by simp, by simp⟩

end Pattern.Expr

namespace Rule

open Pattern.Expr

variable {rule : Rule} {line : String} {comment : Comment} {opener body closer : Expr}

/-- The parts of a comment of a rule with two groups. -/
theorem takes_of_extract?_two (hopener : opener.groupCount = 0) (hbody : body.groupCount = 0)
    (hexpr : rule.pattern.expr = .dividing [opener, body])
    (h : rule.extract? line = some comment) :
    Lead.Takes opener.leads comment.opening.toList ∧ Lead.Takes body.leads comment.body.toList ∧
      line.toList = comment.opening.toList ++ comment.body.toList ∧ comment.closing = "" := by
  have hfree : ∀ part ∈ [opener, body], part.groupCount = 0 := by simpa using ⟨hopener, hbody⟩
  obtain ⟨texts, htexts, hline, hfirst, hsecond, hthird⟩ :=
    exists_texts_of_extract? hexpr hfree h
  cases htexts with
  | cons htakes htexts =>
      cases htexts with
      | cons htakes' htexts =>
          cases htexts
          simp only [List.getD_cons_zero, List.getD_cons_succ] at hfirst hsecond
          rw [hfirst, hsecond]
          refine ⟨htakes, htakes', by simpa using hline, ?_⟩
          exact String.toList_injective hthird

/-- The parts of a comment of a rule with three groups. -/
theorem takes_of_extract?_three (hopener : opener.groupCount = 0) (hbody : body.groupCount = 0)
    (hcloser : closer.groupCount = 0)
    (hexpr : rule.pattern.expr = .dividing [opener, body, closer])
    (h : rule.extract? line = some comment) :
    Lead.Takes opener.leads comment.opening.toList ∧ Lead.Takes body.leads comment.body.toList ∧
      Lead.Takes closer.leads comment.closing.toList ∧
      line.toList = comment.opening.toList ++ comment.body.toList ++ comment.closing.toList := by
  have hfree : ∀ part ∈ [opener, body, closer], part.groupCount = 0 := by
    simpa using ⟨hopener, hbody, hcloser⟩
  obtain ⟨texts, htexts, hline, hfirst, hsecond, hthird⟩ :=
    exists_texts_of_extract? hexpr hfree h
  cases htexts with
  | cons htakes htexts =>
      cases htexts with
      | cons htakes' htexts =>
          cases htexts with
          | cons htakes'' htexts =>
              cases htexts
              simp only [List.getD_cons_zero, List.getD_cons_succ] at hfirst hsecond hthird
              rw [hfirst, hsecond, hthird]
              exact ⟨htakes, htakes', htakes'', by simpa using hline⟩

variable {start : List Char}

/-- A line with a comment in the open form begins with the opener, and the comment has no
closing. -/
theorem exists_eq_of_extract?_open (hopener : Opener opener start) {greedy : Bool}
    (hexpr : rule.pattern.expr = .dividing [opener, content greedy])
    (h : rule.extract? line = some comment) :
    comment.closing = "" ∧ line.toList = comment.opening.toList ++ comment.body.toList ∧
      ∃ before after, line.toList = before ++ start ++ after ∧
        ∀ c ∈ before, Text.isBlank c = true := by
  obtain ⟨htakes, -, hline, hclosing⟩ :=
    takes_of_extract?_two hopener.groupCount_eq rfl hexpr h
  obtain ⟨before, after, hopening, hbefore⟩ := hopener.exists_eq_of_takes htakes
  refine ⟨hclosing, hline, before, after ++ comment.body.toList, ?_, hbefore⟩
  rw [hline, hopening, List.append_assoc _ after]

/-- An opener with anything behind it begins a comment in the open form. -/
theorem isSome_extract?_open (hopener : Opener opener start) {greedy : Bool}
    (hexpr : rule.pattern.expr = .dividing [opener, content greedy])
    {before after : List Char} (hline : line.toList = before ++ start ++ after)
    (hbefore : ∀ c ∈ before, Text.isBlank c = true) (hne : after ≠ []) (hafter : '\n' ∉ after) :
    (rule.extract? line).isSome = true := by
  obtain ⟨texts, hspells, htexts⟩ := hopener.exists_spells
  apply isSome_extract? hexpr (.cons ⟨texts, hspells, htexts before hbefore⟩
    (.cons ⟨_, spells_content greedy, hne, hafter⟩ .nil))
  simpa using hline

variable {finish : List Char}

/-- A line with a comment in the closed form begins with the opener, and the closing of the
comment is the closing token among blanks. -/
theorem exists_eq_of_extract?_closed (hopener : Opener opener start) {greedy : Bool}
    (hexpr : rule.pattern.expr = .dividing [opener, content greedy, padded finish])
    (h : rule.extract? line = some comment) :
    line.toList = comment.opening.toList ++ comment.body.toList ++ comment.closing.toList ∧
    (∃ before after, line.toList = before ++ start ++ after ∧
      ∀ c ∈ before, Text.isBlank c = true) ∧
    ∃ before after, comment.closing.toList = before ++ finish ++ after ∧
      (∀ c ∈ before, Text.isBlank c = true) ∧ ∀ c ∈ after, Text.isBlank c = true := by
  obtain ⟨htakes, -, htakes', hline⟩ :=
    takes_of_extract?_three hopener.groupCount_eq rfl (groupCount_padded finish) hexpr h
  obtain ⟨before, after, hopening, hbefore⟩ := hopener.exists_eq_of_takes htakes
  refine ⟨hline, ⟨before, after ++ (comment.body.toList ++ comment.closing.toList), ?_, hbefore⟩,
    (spells_padded finish).of_takes htakes'⟩
  rw [hline, hopening]
  simp only [List.append_assoc]

/-- An opener and the closing token with anything between them enclose a comment. -/
theorem isSome_extract?_closed (hopener : Opener opener start) {greedy : Bool}
    (hexpr : rule.pattern.expr = .dividing [opener, content greedy, padded finish])
    {before text after : List Char}
    (hline : line.toList = before ++ start ++ (text ++ finish ++ after))
    (hbefore : ∀ c ∈ before, Text.isBlank c = true) (hne : text ≠ []) (htext : '\n' ∉ text)
    (hafter : ∀ c ∈ after, Text.isBlank c = true) : (rule.extract? line).isSome = true := by
  obtain ⟨texts, hspells, htexts⟩ := hopener.exists_spells
  have hcloser : ∃ first last, finish ++ after = first ++ finish ++ last ∧
      (∀ c ∈ first, Text.isBlank c = true) ∧ ∀ c ∈ last, Text.isBlank c = true :=
    ⟨[], after, rfl, by simp, hafter⟩
  apply isSome_extract? hexpr (.cons ⟨texts, hspells, htexts before hbefore⟩
    (.cons ⟨_, spells_content greedy, hne, htext⟩
      (.cons ⟨_, spells_padded finish, hcloser⟩ .nil)))
  simpa using hline

end Rule

end Marginalia
