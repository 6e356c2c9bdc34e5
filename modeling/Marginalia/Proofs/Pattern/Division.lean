import Marginalia.Proofs.Pattern.Search
import Marginalia.Proofs.Pattern.Spelling
import Mathlib.Data.List.Forall2

/-! # Patterns that divide a line

Patterns whose groups stand one after the other between the two ends of the line. A match of
such a pattern divides the whole line among the groups, and there is one when some division
gives every group a text that it spells.
-/

namespace Marginalia.Pattern

namespace Expr

/-- The expressions as groups, counted from `index`, up to the end of the line. -/
def fields (index : Nat) : List Expr → Expr
  | [] => finish
  | body :: bodies => seq (group index body) (fields (index + 1) bodies)

/-- The expressions as the groups of a whole line. -/
def dividing (bodies : List Expr) : Expr := seq start (fields 1 bodies)

/-- The groups that stand one after the other in an expression. -/
def parts : Expr → List Expr
  | seq start rest => rest.parts
  | seq (group _ body) rest => body :: rest.parts
  | _ => []

/-- Whether the expression divides a line among at most `most` groups, none of which has groups
of its own. -/
def dividesLine (most : Nat) (expr : Expr) : Bool :=
  expr == dividing expr.parts && expr.parts.all (·.groupCount == 0) &&
    decide (expr.parts.length ≤ most)

end Expr

/-- The text of the group that was closed last under an index. -/
def captured (groups : List (Nat × Span)) (line : List Char) (index : Nat) : List Char :=
  match groups.lookup index with
  | some span => span.slice line
  | none => []

theorem captured_cons_self (index : Nat) (span : Span) (groups : List (Nat × Span))
    (line : List Char) : captured ((index, span) :: groups) line index = span.slice line := by
  simp [captured]

theorem captured_cons_of_ne {index other : Nat} (hne : other ≠ index) (span : Span)
    (groups : List (Nat × Span)) (line : List Char) :
    captured ((index, span) :: groups) line other = captured groups line other := by
  have hbeq : (other == index) = false := beq_eq_false_iff_ne.mpr hne
  simp [captured, List.lookup_cons, hbeq]

/-- The span between two places of a line holds the text between them. -/
theorem slice_eq_of_reaches {line text : List Char} {here there : Cursor}
    (hhere : here.rest = line.drop here.offset) (h : here.Reaches text there) :
    Span.slice ⟨here.offset, there.offset⟩ line = text := by
  rw [Span.slice, ← hhere, h.rest_eq, h.offset_eq, Nat.add_sub_cancel_left, List.take_left]

theorem rest_eq_drop_of_reaches {line text : List Char} {here there : Cursor}
    (hhere : here.rest = line.drop here.offset) (h : here.Reaches text there) :
    there.rest = line.drop there.offset := by
  rw [h.offset_eq, ← List.drop_drop, ← hhere, h.rest_eq, List.drop_left]

/-- Behind a field that was closed under an index, the groups of later fields come from their
texts, and the groups before them are those from before the field. -/
theorem captured_cons_fields {line text : List Char} {here inner : Cursor}
    {groups : List (Nat × Span)} {texts : List (List Char)} {index : Nat}
    (hhere : here.rest = line.drop here.offset) (htext : here.Reaches text inner)
    (hgroups : inner.groups = here.groups)
    (hcaptured : ∀ other, captured groups line other =
      if index + 1 ≤ other then texts.getD (other - (index + 1))
        (captured ((index, ⟨here.offset, inner.offset⟩) :: inner.groups) line other)
      else captured ((index, ⟨here.offset, inner.offset⟩) :: inner.groups) line other)
    (other : Nat) :
    captured groups line other =
      if index ≤ other then
        (text :: texts).getD (other - index) (captured here.groups line other)
      else captured here.groups line other := by
  rw [hcaptured other, hgroups]
  -- Earlier groups are untouched, this one has its text, and later ones have theirs already.
  rcases Nat.lt_trichotomy other index with hlt | rfl | hlt
  · rw [if_neg (by omega), if_neg (by omega), captured_cons_of_ne (by omega)]
  · rw [if_neg (by omega), if_pos (Nat.le_refl _), captured_cons_self,
      slice_eq_of_reaches hhere htext, Nat.sub_self, List.getD_cons_zero]
  · obtain ⟨offset, rfl⟩ := Nat.exists_eq_add_of_lt hlt
    rw [if_pos (by omega), if_pos (by omega), captured_cons_of_ne (by omega),
      show index + offset + 1 - index = offset + 1 by omega,
      show index + offset + 1 - (index + 1) = offset by omega, List.getD_cons_succ]

namespace Expr

/-- Fields that were matched divide what was left of the line, and each group holds its field. -/
theorem exists_texts_of_leads_fields (line : List Char) (bodies : List Expr)
    (hfree : ∀ body ∈ bodies, body.groupCount = 0) (index : Nat) (here there : Cursor)
    (hhere : here.rest = line.drop here.offset) (h : (fields index bodies).leads here there) :
    ∃ texts, List.Forall₂ (fun body text => Lead.Takes body.leads text) bodies texts ∧
      here.rest = texts.flatten ∧
      ∀ other, captured there.groups line other =
        if index ≤ other then texts.getD (other - index) (captured here.groups line other)
        else captured here.groups line other := by
  induction bodies generalizing index here with
  | nil =>
      obtain ⟨hrest, rfl⟩ := h
      exact ⟨[], .nil, hrest, fun other => by simp⟩
  | cons body bodies ih =>
      obtain ⟨_, ⟨inner, hbody, rfl⟩, hothers⟩ := h
      obtain ⟨hfirst, hfree⟩ := List.forall_mem_cons.mp hfree
      obtain ⟨text, htext⟩ := body.exists_reaches_of_leads here inner hbody
      have hgroups := body.groups_eq_of_leads hfirst here inner hbody
      have hinner : inner.rest = line.drop inner.offset := rest_eq_drop_of_reaches hhere htext
      obtain ⟨texts, htexts, hrest, hcaptured⟩ := ih hfree (index + 1)
        { inner with groups := (index, ⟨here.offset, inner.offset⟩) :: inner.groups }
        hinner hothers
      refine ⟨text :: texts, .cons ⟨here, inner, hbody, htext⟩ htexts, ?_,
        captured_cons_fields hhere htext hgroups hcaptured⟩
      rw [htext.rest_eq, List.flatten_cons]
      exact congrArg (text ++ ·) hrest

/-- Fields lead to the end of the line when the rest of it can be divided among them. -/
theorem exists_leads_fields {bodies : List Expr} {texts : List (List Char)}
    (hspell : List.Forall₂
      (fun body text => ∃ spelled, Lead.Spells body.leads spelled ∧ spelled text) bodies texts)
    (index : Nat) (here : Cursor) (hrest : here.rest = texts.flatten) :
    ∃ there, (fields index bodies).leads here there := by
  induction hspell generalizing index here with
  | nil => exact ⟨here, hrest, rfl⟩
  | @cons body text bodies texts hbody _ ih =>
      obtain ⟨spelled, hspelled, htext⟩ := hbody
      let inner : Cursor :=
        ⟨here.offset + text.length, text.getLast?.or here.before, texts.flatten, here.groups⟩
      have hleads := (hspelled here inner).mpr ⟨text, htext, ⟨hrest, rfl, rfl⟩, rfl⟩
      obtain ⟨there, hthere⟩ := ih (index + 1)
        { inner with groups := (index, ⟨here.offset, inner.offset⟩) :: inner.groups } rfl
      exact ⟨there, _, ⟨inner, hleads, rfl⟩, hthere⟩

/-- An expression that begins at the start of the line is not found behind it. -/
theorem searchFrom_start (body : Expr) (line : List Char) :
    (seq start body).searchFrom 0 none line = body.run ⟨0, none, line, []⟩ some := by
  -- The anchor fails at every place behind the start.
  have hlater (offset : Nat) (before : Option Char) (line : List Char) :
      (seq start body).searchFrom (offset + 1) before line = none := by
    induction line generalizing offset before with
    | nil => rfl
    | cons c line ih => exact ih (offset + 1) (some c)
  cases line with
  | nil => rfl
  | cons c line =>
      rw [searchFrom, hlater 0 (some c) line, Option.orElse_eq_or, Option.or_none]
      rfl

end Expr

variable {pattern : Pattern} {bodies : List Expr} {line : List Char}

/-- A match divides the line among the groups. -/
theorem exists_texts_of_captures? (hexpr : pattern.expr = .dividing bodies)
    (hfree : ∀ body ∈ bodies, body.groupCount = 0) {group : Nat → List Char}
    (h : pattern.captures? line = some group) :
    ∃ texts, List.Forall₂ (fun body text => Lead.Takes body.leads text) bodies texts ∧
      line = texts.flatten ∧ ∀ index, group (index + 1) = texts.getD index [] := by
  rw [captures?, hexpr, Expr.dividing, Expr.searchFrom_start] at h
  obtain ⟨found, hfound, rfl⟩ := Option.map_eq_some_iff.mp h
  obtain ⟨there, hleads, hthere⟩ := (Expr.run_offers _).sound hfound
  obtain rfl := Option.some.inj hthere
  obtain ⟨texts, htexts, hline, hcaptured⟩ :=
    Expr.exists_texts_of_leads_fields line bodies hfree 1 ⟨0, none, line, []⟩ there rfl hleads
  refine ⟨texts, htexts, hline, fun index => ?_⟩
  have hindex := hcaptured (index + 1)
  rw [if_pos (by omega), Nat.add_sub_cancel] at hindex
  exact hindex

/-- A line that can be divided among the groups is matched. -/
theorem isSome_captures? (hexpr : pattern.expr = .dividing bodies) {texts : List (List Char)}
    (hspell : List.Forall₂
      (fun body text => ∃ spelled, Lead.Spells body.leads spelled ∧ spelled text) bodies texts)
    (hline : line = texts.flatten) : (pattern.captures? line).isSome = true := by
  obtain ⟨there, hleads⟩ := Expr.exists_leads_fields hspell 1 ⟨0, none, line, []⟩ hline
  rw [captures?, hexpr, Expr.dividing, Expr.searchFrom_start, Option.isSome_map]
  exact (Expr.run_offers _).complete hleads rfl

end Marginalia.Pattern
