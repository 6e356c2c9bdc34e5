import Marginalia.Proofs.Pattern.Preference

/-! # The division that is found

Of the ways to divide a line among the groups of a pattern the search finds the one that is
preferred: the first group is as long as its part likes it among all divisions, the second group
as long as its part likes it among the divisions of what is left, and so on. There is one such
division at most, so it says exactly when a pattern matches and what its groups hold.
-/

namespace Marginalia.Pattern

/-- A part of a pattern that divides a line: an expression without groups, the texts that it
spells, and whether it prefers long texts or short ones. -/
structure Part where
  expr : Expr
  texts : List Char → Prop
  far : Bool
  groupCount_eq : expr.groupCount = 0
  spells : Lead.Spells expr.leads texts
  prefers : Step.Prefers expr.run expr.leads far

/-- Whether the texts are spelled by the parts, one by each. -/
def Spelled (parts : List Part) (texts : List (List Char)) : Prop :=
  List.Forall₂ (fun (part : Part) text => part.texts text) parts texts

/-- Whether the texts are the preferred ones among those that make up the same line. -/
inductive Preferred : List Part → List (List Char) → Prop
  | nil : Preferred [] []
  | cons {part : Part} {parts : List Part} {text : List Char} {texts : List (List Char)}
      (spelled : part.texts text) (others : Preferred parts texts)
      (not_ahead : ∀ {text' : List Char} {texts' : List (List Char)},
        Spelled (part :: parts) (text' :: texts') →
        text' ++ texts'.flatten = text ++ texts.flatten →
        ¬ Ahead part.far text'.length text.length) :
      Preferred (part :: parts) (text :: texts)

namespace Preferred

variable {parts : List Part} {texts texts' : List (List Char)}

theorem spelled (h : Preferred parts texts) : Spelled parts texts := by
  induction h with
  | nil => exact .nil
  | cons spelled _ _ ih => exact .cons spelled ih

/-- A line has one preferred division at most. -/
theorem unique (h : Preferred parts texts) (h' : Preferred parts texts')
    (hline : texts.flatten = texts'.flatten) : texts = texts' := by
  induction h generalizing texts' with
  | nil =>
      cases h'
      rfl
  | @cons part parts text texts spelled others not_ahead ih =>
      cases h' with
      | @cons _ _ text' texts' spelled' others' not_ahead' =>
          rw [List.flatten_cons, List.flatten_cons] at hline
          have hlength : text.length = text'.length := by
            rcases ahead_trichotomy part.far text.length text'.length with hlt | heq | hlt
            · exact absurd hlt (not_ahead' (.cons spelled others.spelled) hline)
            · exact heq
            · exact absurd hlt (not_ahead (.cons spelled' others'.spelled) hline.symm)
          obtain ⟨rfl, hothers⟩ := List.append_inj hline hlength
          rw [ih others' hothers]

end Preferred

theorem exists_leads_of_spelled {parts : List Part} {texts : List (List Char)}
    (h : Spelled parts texts) (index : Nat) (here : Cursor) (hrest : here.rest = texts.flatten) :
    ∃ there, (Expr.fields index (parts.map Part.expr)).leads here there := by
  refine Expr.exists_leads_fields ?_ index here hrest
  exact List.forall₂_map_left_iff.mpr (h.imp fun part text htext => ⟨_, part.spells, htext⟩)

/-- Fields that the search matched hold the preferred division of what was left of the line. -/
theorem exists_preferred_of_run_fields (line : List Char) (parts : List Part) (index : Nat)
    (here : Cursor) {found : Cursor} (hhere : here.rest = line.drop here.offset)
    (h : (Expr.fields index (parts.map Part.expr)).run here some = some found) :
    ∃ texts, Preferred parts texts ∧ here.rest = texts.flatten ∧
      ∀ other, captured found.groups line other =
        if index ≤ other then texts.getD (other - index) (captured here.groups line other)
        else captured here.groups line other := by
  induction parts generalizing index here with
  | nil =>
      obtain ⟨there, ⟨hrest, rfl⟩, hfound⟩ := (Expr.run_offers _).sound h
      obtain rfl := Option.some.inj hfound
      exact ⟨[], .nil, hrest, fun other => by simp⟩
  | cons part parts ih =>
      obtain ⟨inner, hlead, hothers, hnone⟩ := part.prefers h
      obtain ⟨text, hspelled, htext⟩ := (part.spells here inner).mp hlead
      have hinner : inner.rest = line.drop inner.offset :=
        rest_eq_drop_of_reaches hhere htext.toReaches
      obtain ⟨texts, hpreferred, hrest, hcaptured⟩ := ih (index + 1)
        { inner with groups := (index, ⟨here.offset, inner.offset⟩) :: inner.groups }
        hinner hothers
      have hline : here.rest = text ++ texts.flatten :=
        htext.rest_eq.trans (congrArg (text ++ ·) hrest)
      refine ⟨text :: texts, .cons hspelled hpreferred ?_, hline,
        captured_cons_fields hhere htext.toReaches htext.groups_eq hcaptured⟩
      intro text' texts' hspelled' hline' hahead
      cases hspelled' with
      | cons hfirst hrest' =>
          -- The search tried this division first, and would have found it.
          let other : Cursor :=
            ⟨here.offset + text'.length, text'.getLast?.or here.before, texts'.flatten, here.groups⟩
          have hpasses : here.Passes text' other := ⟨⟨hline.trans hline'.symm, rfl, rfl⟩, rfl⟩
          have hbefore : Ahead part.far other.offset inner.offset := by
            rw [htext.offset_eq]
            exact ahead_add_iff.mpr hahead
          have hgives := hnone other ((part.spells here other).mpr ⟨text', hfirst, hpasses⟩) hbefore
          obtain ⟨there, hthere⟩ := exists_leads_of_spelled hrest' (index + 1)
            { other with groups := (index, ⟨here.offset, other.offset⟩) :: other.groups } rfl
          exact Option.some_ne_none there (Expr.next_eq_none_of_leads hgives hthere)

variable {pattern : Pattern} {parts : List Part} {line : List Char}

/-- A match holds the preferred division of its line. -/
theorem exists_preferred_of_captures? (hexpr : pattern.expr = .dividing (parts.map Part.expr))
    {group : Nat → List Char} (h : pattern.captures? line = some group) :
    ∃ texts, Preferred parts texts ∧ line = texts.flatten ∧
      ∀ index, group (index + 1) = texts.getD index [] := by
  rw [captures?, hexpr, Expr.dividing, Expr.searchFrom_start] at h
  obtain ⟨found, hfound, rfl⟩ := Option.map_eq_some_iff.mp h
  obtain ⟨texts, hpreferred, hline, hcaptured⟩ :=
    exists_preferred_of_run_fields line parts 1 ⟨0, none, line, []⟩ rfl hfound
  refine ⟨texts, hpreferred, hline, fun index => ?_⟩
  have hindex := hcaptured (index + 1)
  rw [if_pos (by omega), Nat.add_sub_cancel] at hindex
  exact hindex

/-- The preferred division of a line is what a match holds. -/
theorem exists_captures?_of_preferred (hexpr : pattern.expr = .dividing (parts.map Part.expr))
    {texts : List (List Char)} (hpreferred : Preferred parts texts) (hline : line = texts.flatten) :
    ∃ group, pattern.captures? line = some group ∧
      ∀ index, group (index + 1) = texts.getD index [] := by
  have hsome := isSome_captures? hexpr (List.forall₂_map_left_iff.mpr
    (hpreferred.spelled.imp fun part text htext => ⟨_, part.spells, htext⟩)) hline
  obtain ⟨group, hgroup⟩ := Option.isSome_iff_exists.mp hsome
  obtain ⟨texts', hpreferred', hline', hindex⟩ := exists_preferred_of_captures? hexpr hgroup
  obtain rfl := hpreferred.unique hpreferred' (hline.symm.trans hline')
  exact ⟨group, hgroup, hindex⟩

end Marginalia.Pattern
