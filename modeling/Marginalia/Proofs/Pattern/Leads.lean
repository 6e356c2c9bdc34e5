import Marginalia.Pattern.Basic
import Mathlib.Logic.Relation

/-! # Where expressions lead

An expression leads from a place in a line to every place where a match of it can end, in no
order of preference. The search of `Expr.run` tries these places and no others, and it finds
one that its continuation accepts whenever there is one.
-/

namespace Marginalia.Pattern

/-- A relation between the place where something begins and a place where it can end. -/
abbrev Lead := Cursor → Cursor → Prop

/-! ## Repetitions -/

/-- Exactly `count` times in a row. -/
def Lead.times (lead : Lead) : Nat → Lead
  | 0, here, there => there = here
  | count + 1, here, there => ∃ middle, lead here middle ∧ lead.times count middle there

/-- Once, past at least one character. -/
def Lead.advancing (lead : Lead) : Lead := fun here there =>
  lead here there ∧ here.offset < there.offset

/-- At least once; after a time that passes no character there is no other. -/
def Lead.onceOrMore (lead : Lead) : Lead := fun here there =>
  ∃ middle, lead here middle ∧
    if here.offset < middle.offset then Relation.ReflTransGen lead.advancing middle there
    else there = middle

/-- Between `least` and `most` times in a row. -/
def Lead.repeated (lead : Lead) (least : Nat) (most : Option Nat) : Lead := fun here there =>
  match most, least with
  | some most, _ => ∃ middle count, lead.times least here middle ∧ count ≤ most - least ∧
      lead.times count middle there
  | none, 0 => lead.onceOrMore here there ∨ there = here
  | none, required + 1 => ∃ middle, lead.times required here middle ∧
      lead.onceOrMore middle there

namespace Lead

variable {lead : Lead} (law : Lead)

/-- What holds of one time and survives composition holds of any number of times. -/
theorem times_le (hrefl : ∀ here, law here here)
    (htrans : ∀ {here middle there}, law here middle → law middle there → law here there)
    (hlead : ∀ here there, lead here there → law here there) (count : Nat)
    (here there : Cursor) (h : lead.times count here there) : law here there := by
  induction count generalizing here with
  | zero => exact h ▸ hrefl here
  | succ count ih =>
      obtain ⟨middle, hfirst, hothers⟩ := h
      exact htrans (hlead here middle hfirst) (ih middle hothers)

theorem onceOrMore_le (hrefl : ∀ here, law here here)
    (htrans : ∀ {here middle there}, law here middle → law middle there → law here there)
    (hlead : ∀ here there, lead here there → law here there)
    (here there : Cursor) (h : lead.onceOrMore here there) : law here there := by
  obtain ⟨middle, hfirst, hothers⟩ := h
  refine htrans (hlead here middle hfirst) ?_
  -- A first time that passed nothing was the last one as well.
  split at hothers
  next =>
    induction hothers with
    | refl => exact hrefl middle
    | tail _ hlast ih => exact htrans ih (hlead _ _ hlast.1)
  next => exact hothers ▸ hrefl middle

/-- The same for all bounds on the number of times. -/
theorem repeated_le (hrefl : ∀ here, law here here)
    (htrans : ∀ {here middle there}, law here middle → law middle there → law here there)
    (hlead : ∀ here there, lead here there → law here there) (least : Nat) (most : Option Nat)
    (here there : Cursor) (h : lead.repeated least most here there) : law here there := by
  have htimes := times_le law hrefl htrans hlead
  have honce := onceOrMore_le law hrefl htrans hlead
  unfold repeated at h
  split at h
  next =>
    obtain ⟨middle, count, hrequired, -, hothers⟩ := h
    exact htrans (htimes _ _ _ hrequired) (htimes _ _ _ hothers)
  next =>
    rcases h with h | rfl
    · exact honce _ _ h
    · exact hrefl _
  next =>
    obtain ⟨middle, hrequired, hothers⟩ := h
    exact htrans (htimes _ _ _ hrequired) (honce _ _ hothers)

end Lead

/-! ## Expressions -/

/-- The places to which an expression leads. -/
def Expr.leads : Expr → Lead
  | empty, here, there => there = here
  | start, here, there => here.offset = 0 ∧ there = here
  | finish, here, there => here.rest = [] ∧ there = here
  | between pairs, here, there => (∃ pair ∈ pairs, pair.1.admits here.before = true ∧
      pair.2.admits here.rest.head? = true) ∧ there = here
  | one set, here, there => ∃ c rest, here.rest = c :: rest ∧ set.contains c = true ∧
      there = { here with offset := here.offset + 1, before := some c, rest }
  | seq first second, here, there => ∃ middle, first.leads here middle ∧ second.leads middle there
  | either first second, here, there => first.leads here there ∨ second.leads here there
  | group index body, here, there => ∃ inner, body.leads here inner ∧
      there = { inner with groups := (index, ⟨here.offset, inner.offset⟩) :: inner.groups }
  | repeated body least most _, here, there => Lead.repeated body.leads least most here there

/-- The characters between two places of a line. -/
structure Cursor.Reaches (here : Cursor) (text : List Char) (there : Cursor) : Prop where
  rest_eq : here.rest = text ++ there.rest
  offset_eq : there.offset = here.offset + text.length
  before_eq : there.before = text.getLast?.or here.before

namespace Cursor.Reaches

theorem refl (here : Cursor) : here.Reaches [] here := ⟨rfl, rfl, rfl⟩

theorem trans {here middle there : Cursor} {first second : List Char}
    (hfirst : here.Reaches first middle) (hsecond : middle.Reaches second there) :
    here.Reaches (first ++ second) there where
  rest_eq := by rw [hfirst.rest_eq, hsecond.rest_eq, List.append_assoc]
  offset_eq := by
    rw [hsecond.offset_eq, hfirst.offset_eq, List.length_append, Nat.add_assoc]
  before_eq := by
    rw [hsecond.before_eq, hfirst.before_eq, List.getLast?_append, Option.or_assoc]

/-- Two places determine the text between them. -/
theorem unique {here there : Cursor} {first second : List Char}
    (hfirst : here.Reaches first there) (hsecond : here.Reaches second there) :
    first = second :=
  List.append_cancel_right (hfirst.rest_eq.symm.trans hsecond.rest_eq)

/-- A place behind another one has fewer characters left. -/
theorem length_lt {here there : Cursor} {text : List Char} (h : here.Reaches text there)
    (hlt : here.offset < there.offset) : there.rest.length < here.rest.length := by
  have hoffset := h.offset_eq
  rw [h.rest_eq, List.length_append]
  omega

end Cursor.Reaches

namespace Expr

/-- Expressions lead forward only. -/
theorem exists_reaches_of_leads (expr : Expr) (here there : Cursor)
    (h : expr.leads here there) : ∃ text, here.Reaches text there := by
  induction expr generalizing here there with
  | empty => exact ⟨[], h ▸ .refl here⟩
  | start => exact ⟨[], h.2 ▸ .refl here⟩
  | finish => exact ⟨[], h.2 ▸ .refl here⟩
  | between pairs => exact ⟨[], h.2 ▸ .refl here⟩
  | one set =>
      obtain ⟨c, rest, hrest, -, rfl⟩ := h
      exact ⟨[c], hrest, rfl, rfl⟩
  | seq first second ihfirst ihsecond =>
      obtain ⟨middle, hfirst, hsecond⟩ := h
      obtain ⟨before, hbefore⟩ := ihfirst here middle hfirst
      obtain ⟨after, hafter⟩ := ihsecond middle there hsecond
      exact ⟨before ++ after, hbefore.trans hafter⟩
  | either first second ihfirst ihsecond => exact h.elim (ihfirst _ _) (ihsecond _ _)
  | group index body ih =>
      obtain ⟨inner, hbody, rfl⟩ := h
      obtain ⟨text, htext⟩ := ih here inner hbody
      exact ⟨text, htext.rest_eq, htext.offset_eq, htext.before_eq⟩
  | repeated body least most greedy ih =>
      -- Having a text between them is a law that composes, so repetitions keep it.
      refine Lead.repeated_le (fun here there => ∃ text, here.Reaches text there)
        (fun here => ⟨[], .refl here⟩) ?_ ih least most here there h
      rintro _ _ _ ⟨first, hfirst⟩ ⟨second, hsecond⟩
      exact ⟨first ++ second, hfirst.trans hsecond⟩

/-- An expression without groups records none. -/
theorem groups_eq_of_leads (expr : Expr) (hfree : expr.groupCount = 0) (here there : Cursor)
    (h : expr.leads here there) : there.groups = here.groups := by
  induction expr generalizing here there with
  | empty => exact h ▸ rfl
  | start => exact h.2 ▸ rfl
  | finish => exact h.2 ▸ rfl
  | between pairs => exact h.2 ▸ rfl
  | one set =>
      obtain ⟨c, rest, -, -, rfl⟩ := h
      rfl
  | seq first second ihfirst ihsecond =>
      obtain ⟨hfree, hfree'⟩ := Nat.add_eq_zero_iff.mp hfree
      obtain ⟨middle, hfirst, hsecond⟩ := h
      exact (ihsecond hfree' middle there hsecond).trans (ihfirst hfree here middle hfirst)
  | either first second ihfirst ihsecond =>
      obtain ⟨hfree, hfree'⟩ := Nat.add_eq_zero_iff.mp hfree
      exact h.elim (ihfirst hfree _ _) (ihsecond hfree' _ _)
  | group index body => cases hfree
  | repeated body least most greedy ih =>
      exact Lead.repeated_le (fun here there => there.groups = here.groups)
        (fun _ => rfl) (fun hfirst hsecond => hsecond.trans hfirst) (ih hfree)
        least most here there h

end Expr

end Marginalia.Pattern
