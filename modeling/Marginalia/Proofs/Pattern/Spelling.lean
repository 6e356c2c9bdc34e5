import Marginalia.Proofs.Pattern.Leads

/-! # The texts of an expression

An expression without anchors and groups spells a set of texts: it passes each of them wherever
it stands, and nothing else. The sets are given for characters, for repetitions of one
character and for sequences, which is what delimiters and bodies of comments are made of.
-/

namespace Marginalia.Pattern

/-- The text lies between two places, and no group is closed on it. -/
structure Cursor.Passes (here : Cursor) (text : List Char) (there : Cursor) : Prop
    extends here.Reaches text there where
  groups_eq : there.groups = here.groups

namespace Cursor

variable {here there : Cursor}

theorem passes_nil_iff : here.Passes [] there ↔ there = here := by
  constructor
  · rintro ⟨⟨hrest, hoffset, hbefore⟩, hgroups⟩
    cases here
    cases there
    simp_all
  · rintro rfl
    exact ⟨.refl there, rfl⟩

theorem passes_cons_iff {c : Char} {text : List Char} :
    here.Passes (c :: text) there ↔
      ∃ rest, here.rest = c :: rest ∧
        Passes { here with offset := here.offset + 1, before := some c, rest } text there := by
  have hlast (text : List Char) :
      (c :: text).getLast?.or here.before = text.getLast?.or (some c) := by
    cases text <;> simp [List.getLast?_cons]
  constructor
  · rintro ⟨⟨hrest, hoffset, hbefore⟩, hgroups⟩
    refine ⟨text ++ there.rest, hrest, ⟨rfl, ?_, (hlast text ▸ hbefore)⟩, hgroups⟩
    rw [hoffset, List.length_cons]
    simp only [Nat.add_assoc, Nat.add_comm 1]
  · rintro ⟨rest, hrest, ⟨hreaches, hoffset, hbefore⟩, hgroups⟩
    refine ⟨⟨?_, ?_, (hlast text).symm ▸ hbefore⟩, hgroups⟩
    · rw [hrest, List.cons_append, ← hreaches]
    · rw [hoffset, List.length_cons]
      simp only [Nat.add_assoc, Nat.add_comm 1]

theorem passes_append_iff {before after : List Char} :
    here.Passes (before ++ after) there ↔
      ∃ middle, here.Passes before middle ∧ middle.Passes after there := by
  induction before generalizing here with
  | nil => simp only [List.nil_append, passes_nil_iff, exists_eq_left]
  | cons c before ih =>
      simp only [List.cons_append, passes_cons_iff, ih]
      constructor
      · rintro ⟨rest, hrest, middle, hbefore, hafter⟩
        exact ⟨middle, ⟨rest, hrest, hbefore⟩, hafter⟩
      · rintro ⟨middle, ⟨rest, hrest, hbefore⟩, hafter⟩
        exact ⟨rest, hrest, middle, hbefore, hafter⟩

end Cursor

/-- Somewhere the relation passes the text. -/
def Lead.Takes (lead : Lead) (text : List Char) : Prop :=
  ∃ here there, lead here there ∧ here.Reaches text there

/-- The relation passes these texts, wherever they stand, and no others. -/
def Lead.Spells (lead : Lead) (texts : List Char → Prop) : Prop :=
  ∀ here there, lead here there ↔ ∃ text, texts text ∧ here.Passes text there

namespace Lead.Spells

variable {lead first second : Lead} {texts : List Char → Prop}

theorem of_takes (h : lead.Spells texts) {text : List Char} (htakes : lead.Takes text) :
    texts text := by
  obtain ⟨here, there, hlead, hreaches⟩ := htakes
  obtain ⟨text', htext, hpasses⟩ := (h here there).mp hlead
  exact hreaches.unique hpasses.toReaches ▸ htext

/-- Two spellings of the same texts. -/
theorem congr (h : lead.Spells texts) {texts' : List Char → Prop}
    (heq : ∀ text, texts text ↔ texts' text) : lead.Spells texts' := by
  simpa only [Spells, heq] using h

theorem comp {texts' : List Char → Prop} (hfirst : first.Spells texts)
    (hsecond : second.Spells texts') :
    Lead.Spells (fun here there => ∃ middle, first here middle ∧ second middle there)
      fun text => ∃ before after, text = before ++ after ∧ texts before ∧ texts' after := by
  intro here there
  constructor
  · rintro ⟨middle, hlead, hlead'⟩
    obtain ⟨before, hbefore, hpasses⟩ := (hfirst here middle).mp hlead
    obtain ⟨after, hafter, hpasses'⟩ := (hsecond middle there).mp hlead'
    exact ⟨before ++ after, ⟨before, after, rfl, hbefore, hafter⟩,
      Cursor.passes_append_iff.mpr ⟨middle, hpasses, hpasses'⟩⟩
  · rintro ⟨_, ⟨before, after, rfl, hbefore, hafter⟩, hpasses⟩
    obtain ⟨middle, hpasses, hpasses'⟩ := Cursor.passes_append_iff.mp hpasses
    exact ⟨middle, (hfirst here middle).mpr ⟨before, hbefore, hpasses⟩,
      (hsecond middle there).mpr ⟨after, hafter, hpasses'⟩⟩

end Lead.Spells

namespace Expr

theorem spells_one (set : CharSet) :
    Lead.Spells (one set).leads fun text => ∃ c, set.contains c = true ∧ text = [c] := by
  intro here there
  constructor
  · rintro ⟨c, rest, hrest, hmem, rfl⟩
    exact ⟨[c], ⟨c, hmem, rfl⟩, ⟨hrest, rfl, rfl⟩, rfl⟩
  · rintro ⟨_, ⟨c, hmem, rfl⟩, hpasses⟩
    obtain ⟨rest, hrest, hpasses⟩ := Cursor.passes_cons_iff.mp hpasses
    exact ⟨c, rest, hrest, hmem, Cursor.passes_nil_iff.mp hpasses⟩

theorem spells_single (c : Char) : Lead.Spells (one (.single c)).leads (· = [c]) :=
  (spells_one _).congr fun text => by simp

theorem spells_seq {first second : Expr} {texts texts' : List Char → Prop}
    (hfirst : Lead.Spells first.leads texts) (hsecond : Lead.Spells second.leads texts') :
    Lead.Spells (seq first second).leads
      fun text => ∃ before after, text = before ++ after ∧ texts before ∧ texts' after :=
  hfirst.comp hsecond

theorem spells_times_one (set : CharSet) (count : Nat) :
    Lead.Spells (Lead.times (one set).leads count)
      fun text => text.length = count ∧ ∀ c ∈ text, set.contains c = true := by
  induction count with
  | zero =>
      intro here there
      refine ⟨fun h => ⟨[], ⟨rfl, by simp⟩, Cursor.passes_nil_iff.mpr h⟩, ?_⟩
      rintro ⟨text, ⟨hlength, -⟩, hpasses⟩
      obtain rfl := List.length_eq_zero_iff.mp hlength
      exact Cursor.passes_nil_iff.mp hpasses
  | succ count ih =>
      refine ((spells_one set).comp ih).congr fun text => ?_
      constructor
      · rintro ⟨_, after, rfl, ⟨c, hmem, rfl⟩, hlength, hafter⟩
        refine ⟨by simp [hlength], ?_⟩
        simpa using ⟨hmem, hafter⟩
      · rintro ⟨hlength, hall⟩
        obtain ⟨c, after, rfl⟩ := List.exists_cons_of_length_eq_add_one hlength
        refine ⟨[c], after, rfl, ⟨c, hall c List.mem_cons_self, rfl⟩, by simpa using hlength, ?_⟩
        exact fun d hd => hall d (List.mem_cons_of_mem _ hd)

/-- Any number of characters of a set, each of which passes one. -/
theorem spells_advancing_one (set : CharSet) :
    Lead.Spells (Relation.ReflTransGen (Lead.advancing (one set).leads))
      fun text => ∀ c ∈ text, set.contains c = true := by
  intro here there
  constructor
  · intro h
    induction h with
    | refl => exact ⟨[], by simp, Cursor.passes_nil_iff.mpr rfl⟩
    | tail _ hlast ih =>
        obtain ⟨before, hbefore, hpasses⟩ := ih
        obtain ⟨_, ⟨c, hmem, rfl⟩, hpasses'⟩ := (spells_one set _ _).mp hlast.1
        refine ⟨before ++ [c], ?_, Cursor.passes_append_iff.mpr ⟨_, hpasses, hpasses'⟩⟩
        simpa [or_imp, forall_and] using ⟨hbefore, hmem⟩
  · rintro ⟨text, hall, hpasses⟩
    induction text generalizing here with
    | nil => exact Cursor.passes_nil_iff.mp hpasses ▸ .refl
    | cons c text ih =>
        obtain ⟨rest, hrest, hpasses⟩ := Cursor.passes_cons_iff.mp hpasses
        have hothers := ih _ (fun d hd => hall d (List.mem_cons_of_mem _ hd)) hpasses
        have hfirst : (one set).leads here
            { here with offset := here.offset + 1, before := some c, rest } :=
          ⟨c, rest, hrest, hall c List.mem_cons_self, rfl⟩
        exact .head ⟨hfirst, Nat.lt_succ_self _⟩ hothers

theorem spells_onceOrMore_one (set : CharSet) :
    Lead.Spells (Lead.onceOrMore (one set).leads)
      fun text => text ≠ [] ∧ ∀ c ∈ text, set.contains c = true := by
  have htext (text : List Char) :
      (∃ before after, text = before ++ after ∧ (∃ c, set.contains c = true ∧ before = [c]) ∧
        ∀ c ∈ after, set.contains c = true) ↔
      text ≠ [] ∧ ∀ c ∈ text, set.contains c = true := by
    constructor
    · rintro ⟨_, after, rfl, ⟨c, hmem, rfl⟩, hafter⟩
      simpa using ⟨hmem, hafter⟩
    · rintro ⟨hne, hall⟩
      obtain ⟨c, after, rfl⟩ := List.exists_cons_of_ne_nil hne
      exact ⟨[c], after, rfl, ⟨c, hall c List.mem_cons_self, rfl⟩,
        fun d hd => hall d (List.mem_cons_of_mem _ hd)⟩
  have hcomp := ((spells_one set).comp (spells_advancing_one set)).congr htext
  intro here there
  rw [← hcomp here there]
  -- The first character always passes something, so the condition on it is always met.
  apply exists_congr
  intro middle
  apply and_congr_right
  rintro ⟨c, rest, -, -, rfl⟩
  rw [if_pos (Nat.lt_succ_self _)]

/-- An unbounded repetition of one character. -/
theorem spells_repeated_one (set : CharSet) (least : Nat) (greedy : Bool) :
    Lead.Spells (repeated (one set) least none greedy).leads
      fun text => least ≤ text.length ∧ ∀ c ∈ text, set.contains c = true := by
  cases least with
  | zero =>
      intro here there
      change Lead.onceOrMore (one set).leads here there ∨ there = here ↔ _
      rw [spells_onceOrMore_one set here there]
      constructor
      · rintro (⟨text, ⟨-, hall⟩, hpasses⟩ | rfl)
        · exact ⟨text, ⟨Nat.zero_le _, hall⟩, hpasses⟩
        · exact ⟨[], by simp, Cursor.passes_nil_iff.mpr rfl⟩
      · rintro ⟨text, ⟨-, hall⟩, hpasses⟩
        by_cases hnil : text = []
        · exact Or.inr (Cursor.passes_nil_iff.mp (hnil ▸ hpasses))
        · exact Or.inl ⟨text, ⟨hnil, hall⟩, hpasses⟩
  | succ required =>
      refine ((spells_times_one set required).comp (spells_onceOrMore_one set)).congr fun text => ?_
      constructor
      · rintro ⟨before, after, rfl, ⟨rfl, hbefore⟩, hne, hafter⟩
        have hpos := List.length_pos_iff.mpr hne
        refine ⟨by rw [List.length_append]; omega, fun c hc => ?_⟩
        exact (List.mem_append.mp hc).elim (hbefore c) (hafter c)
      · rintro ⟨hlength, hall⟩
        -- The required characters come first, and the open end takes what is left.
        refine ⟨text.take required, text.drop required, (List.take_append_drop _ _).symm,
          ⟨by rw [List.length_take]; omega, fun c hc => hall c (List.mem_of_mem_take hc)⟩,
          ?_, fun c hc => hall c (List.mem_of_mem_drop hc)⟩
        rw [Ne, List.drop_eq_nil_iff]
        omega

/-- At most one character. -/
theorem spells_optional_one (set : CharSet) (greedy : Bool) :
    Lead.Spells (repeated (one set) 0 (some 1) greedy).leads
      fun text => text.length ≤ 1 ∧ ∀ c ∈ text, set.contains c = true := by
  intro here there
  constructor
  · rintro ⟨middle, count, rfl, hle, hcount⟩
    obtain ⟨text, ⟨hlength, hall⟩, hpasses⟩ := (spells_times_one set count _ _).mp hcount
    exact ⟨text, ⟨by omega, hall⟩, hpasses⟩
  · rintro ⟨text, ⟨hle, hall⟩, hpasses⟩
    exact ⟨here, text.length, rfl, hle,
      (spells_times_one set text.length _ _).mpr ⟨text, ⟨rfl, hall⟩, hpasses⟩⟩

end Expr

end Marginalia.Pattern
