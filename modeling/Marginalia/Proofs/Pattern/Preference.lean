import Marginalia.Proofs.Pattern.Division

/-! # Which match is found

Of the places where an expression can end and the match can go on, the search takes the first in
its order of preference. For the expressions that comments are made of the order is one of
distance: a repetition that prefers to go on comes to the farthest place, one that prefers to stop
comes to the nearest, and a sequence keeps to the farthest place as long as a longer way through
its first part never ends earlier. The texts of a divided line are found in this order, one group
after the other.
-/

namespace Marginalia.Pattern

/-- Whether the first of two offsets is preferred to the second: the greater one in a search that
goes far, and the smaller one in any other. -/
def Ahead (far : Bool) (first second : Nat) : Prop :=
  if far then second < first else first < second

theorem not_ahead_self {far : Bool} {offset : Nat} : ¬ Ahead far offset offset := by
  cases far <;> exact Nat.lt_irrefl offset

theorem ahead_add_iff {far : Bool} {first second offset : Nat} :
    Ahead far (offset + first) (offset + second) ↔ Ahead far first second := by
  cases far <;> exact Nat.add_lt_add_iff_left

theorem ahead_trichotomy (far : Bool) (first second : Nat) :
    Ahead far first second ∨ first = second ∨ Ahead far second first := by
  rcases Nat.lt_trichotomy first second with h | h | h
  · cases far
    · exact Or.inl h
    · exact Or.inr (Or.inr h)
  · exact Or.inr (Or.inl h)
  · cases far
    · exact Or.inr (Or.inr h)
    · exact Or.inl h

/-- Whether of some places this one is preferred among those that the continuation accepts. -/
structure Next.Settles (next : Next) (places : Cursor → Prop) (far : Bool) (there : Cursor)
    (result : Cursor) : Prop where
  mem : places there
  accepts : next there = some result
  none_ahead : ∀ other, places other → Ahead far other.offset there.offset → next other = none

/-- Whether the search of a step comes to the preferred place of a relation. -/
def Step.Prefers (step : Step) (lead : Lead) (far : Bool) : Prop :=
  ∀ ⦃here : Cursor⦄ ⦃next : Next⦄ ⦃result : Cursor⦄, step here next = some result →
    ∃ there, Next.Settles next (lead here) far there result

variable {here there : Cursor} {next : Next} {result : Cursor} {far : Bool}

/-- Between going on and stopping the search settles on the preferred place of both. -/
theorem exists_settles_of_prefer {goOn stop : Unit → Option Cursor} {places : Cursor → Prop}
    (hgo : ∀ {result}, goOn () = some result → ∃ there, next.Settles places far there result)
    (hnone : goOn () = none → ∀ other, places other → next other = none)
    (hstop : stop () = next here) (hlt : ∀ other, places other → here.offset < other.offset)
    (h : prefer far goOn stop = some result) :
    ∃ there, next.Settles (fun there => places there ∨ there = here) far there result := by
  unfold prefer at h
  cases far with
  | true =>
      rw [if_pos rfl, Option.orElse_eq_or, Option.or_eq_some_iff] at h
      rcases h with h | ⟨hgoOn, h⟩
      · obtain ⟨there, hmem, haccepts, hahead⟩ := hgo h
        refine ⟨there, Or.inl hmem, haccepts, ?_⟩
        rintro other (hother | rfl) hlater
        · exact hahead other hother hlater
        · exact absurd hlater (Nat.lt_asymm (hlt there hmem))
      · refine ⟨here, Or.inr rfl, hstop ▸ h, ?_⟩
        rintro other (hother | rfl) hlater
        · exact hnone hgoOn other hother
        · exact absurd hlater not_ahead_self
  | false =>
      rw [if_neg Bool.false_ne_true, Option.orElse_eq_or, Option.or_eq_some_iff] at h
      rcases h with h | ⟨hstopped, h⟩
      · refine ⟨here, Or.inr rfl, hstop ▸ h, ?_⟩
        rintro other (hother | rfl) hearlier
        · exact absurd hearlier (Nat.lt_asymm (hlt other hother))
        · exact absurd hearlier not_ahead_self
      · obtain ⟨there, hmem, haccepts, hahead⟩ := hgo h
        refine ⟨there, Or.inl hmem, haccepts, ?_⟩
        rintro other (hother | rfl) hearlier
        · exact hahead other hother hearlier
        · exact hstop ▸ hstopped

theorem Next.Settles.congr {places places' : Cursor → Prop}
    (h : next.Settles places far there result)
    (heq : ∀ other, places other ↔ places' other) : next.Settles places' far there result where
  mem := (heq there).mp h.mem
  accepts := h.accepts
  none_ahead other hother := h.none_ahead other ((heq other).mpr hother)

namespace Expr

theorem next_eq_none_of_leads {expr : Expr} (h : expr.run here next = none)
    (hlead : expr.leads here there) : next there = none := by
  by_contra hnext
  have hsome := expr.run_offers.complete hlead (Option.isSome_iff_ne_none.mpr hnext)
  rw [h] at hsome
  cases hsome

/-! ## One character -/

/-- A character can be passed in one way or in none. -/
theorem leads_one_cases (set : CharSet) (here : Cursor) :
    (∃ middle : Cursor, here.offset < middle.offset ∧ middle.rest.length < here.rest.length ∧
      (∀ there, (one set).leads here there ↔ there = middle) ∧
      ∀ next, (one set).run here next = next middle) ∨
    (∀ there, ¬ (one set).leads here there) ∧ ∀ next, (one set).run here next = none := by
  obtain ⟨offset, before, rest, groups⟩ := here
  cases rest with
  | nil =>
      right
      refine ⟨fun there hlead => ?_, fun next => rfl⟩
      obtain ⟨c, rest, hrest, -, -⟩ := hlead
      cases hrest
  | cons c rest =>
      by_cases hmem : set.contains c = true
      · left
        refine ⟨⟨offset + 1, some c, rest, groups⟩, Nat.lt_succ_self _, Nat.lt_succ_self _,
          fun there => ⟨?_, ?_⟩, fun next => by simp [hmem]⟩
        · rintro ⟨d, others, hrest, -, rfl⟩
          obtain ⟨rfl, rfl⟩ := List.cons.inj hrest
          rfl
        · rintro rfl
          exact ⟨c, rest, rfl, hmem, rfl⟩
      · right
        refine ⟨?_, fun next => by simp [hmem]⟩
        rintro there ⟨d, others, hrest, hd, -⟩
        obtain ⟨rfl, -⟩ := List.cons.inj hrest
        exact hmem hd

theorem prefers_one (set : CharSet) (far : Bool) :
    Step.Prefers (one set).run (one set).leads far := by
  intro here next result h
  rcases leads_one_cases set here with ⟨middle, -, -, hleads, hrun⟩ | ⟨-, hrun⟩
  · rw [hrun] at h
    refine ⟨middle, (hleads middle).mpr rfl, h, fun other hother hahead => ?_⟩
    rw [(hleads other).mp hother] at hahead
    exact absurd hahead not_ahead_self
  · rw [hrun] at h
    cases h

/-! ## Repetitions of one character -/

theorem offset_le_of_advancing {lead : Lead}
    (h : Relation.ReflTransGen lead.advancing here there) : here.offset ≤ there.offset := by
  induction h with
  | refl => exact Nat.le_refl _
  | tail _ hlast ih => exact Nat.le_of_lt (Nat.lt_of_le_of_lt ih hlast.2)

/-- Behind its only first step a repetition goes on from there. -/
theorem advancing_iff {lead : Lead} {middle : Cursor} (hlt : here.offset < middle.offset)
    (hleads : ∀ there, lead here there ↔ there = middle) :
    Relation.ReflTransGen lead.advancing here there ↔
      Relation.ReflTransGen lead.advancing middle there ∨ there = here := by
  constructor
  · intro h
    rcases h.cases_head with rfl | ⟨first, hfirst, hothers⟩
    · exact Or.inr rfl
    · obtain rfl := (hleads first).mp hfirst.1
      exact Or.inl hothers
  · rintro (h | rfl)
    · exact .head ⟨(hleads middle).mpr rfl, hlt⟩ h
    · exact .refl

theorem exists_settles_of_many (set : CharSet) (fuel : Nat) (hfuel : here.rest.length ≤ fuel)
    (h : many (one set).run far fuel here next = some result) :
    ∃ there, next.Settles (Relation.ReflTransGen (Lead.advancing (one set).leads) here) far there
      result := by
  induction fuel generalizing here result with
  | zero =>
      -- Nothing is left of the line, so there is no step.
      refine ⟨here, .refl, h, fun other hother hahead => ?_⟩
      rcases hother.cases_head with rfl | ⟨first, hfirst, -⟩
      · exact absurd hahead not_ahead_self
      · obtain ⟨c, rest, hrest, -⟩ := hfirst.1
        rw [hrest] at hfuel
        exact absurd hfuel (Nat.not_succ_le_zero _)
  | succ fuel ih =>
      rcases leads_one_cases set here with ⟨middle, hlt, hshorter, hleads, hrun⟩ | ⟨hstuck, hrun⟩
      · have hmiddle : middle.rest.length ≤ fuel := by omega
        have hgo : (one set).run here (fun there =>
            if here.offset < there.offset then many (one set).run far fuel there next else none) =
              many (one set).run far fuel middle next := by
          rw [hrun, if_pos hlt]
        have hnone (hnone : many (one set).run far fuel middle next = none) (other : Cursor)
            (hother : Relation.ReflTransGen (Lead.advancing (one set).leads) middle other) :
            next other = none := by
          by_contra hnext
          have hsome := (one set).run_offers.many_complete (one set).exists_reaches_of_leads far
            fuel hmiddle hother (Option.isSome_iff_ne_none.mpr hnext)
          rw [hnone] at hsome
          cases hsome
        obtain ⟨there, hsettles⟩ := exists_settles_of_prefer
          (fun hsome => ih hmiddle (hgo ▸ hsome)) (fun h => hnone (hgo ▸ h)) rfl
          (fun other hother => Nat.lt_of_lt_of_le hlt (offset_le_of_advancing hother)) h
        exact ⟨there, hsettles.congr fun other => (advancing_iff hlt hleads).symm⟩
      · have hstop : next here = some result := by
          rw [many, hrun] at h
          exact (prefer_eq_some h).resolve_left (by simp)
        refine ⟨here, .refl, hstop, fun other hother hahead => ?_⟩
        rcases hother.cases_head with rfl | ⟨first, hfirst, -⟩
        · exact absurd hahead not_ahead_self
        · exact absurd hfirst.1 (hstuck first)

theorem prefers_atLeastOnce_one (set : CharSet) (far : Bool) :
    Step.Prefers (atLeastOnce (one set).run far) (Lead.onceOrMore (one set).leads) far := by
  intro here next result h
  rcases leads_one_cases set here with ⟨middle, hlt, -, hleads, hrun⟩ | ⟨-, hrun⟩
  · rw [atLeastOnce, hrun, if_pos hlt] at h
    obtain ⟨there, hsettles⟩ := exists_settles_of_many set _ (Nat.le_refl _) h
    refine ⟨there, hsettles.congr fun other => ?_⟩
    simp only [Lead.onceOrMore, hleads, exists_eq_left, if_pos hlt]
  · rw [atLeastOnce, hrun] at h
    cases h

theorem prefers_anyNumber_one (set : CharSet) (far : Bool) :
    Step.Prefers (anyNumber (one set).run far)
      (fun here there => Lead.onceOrMore (one set).leads here there ∨ there = here) far := by
  intro here next result h
  have honce := (one set).run_offers.atLeastOnce (one set).exists_reaches_of_leads far
  apply exists_settles_of_prefer (fun hsome => prefers_atLeastOnce_one set far hsome) ?_ rfl ?_ h
  · intro hnone other hother
    by_contra hnext
    have hsome := honce.complete hother (Option.isSome_iff_ne_none.mpr hnext)
    rw [hnone] at hsome
    cases hsome
  · rintro other ⟨middle, hfirst, hothers⟩
    rcases leads_one_cases set here with ⟨_, hlt, -, hleads, -⟩ | ⟨hstuck, -⟩
    · obtain rfl := (hleads middle).mp hfirst
      rw [if_pos hlt] at hothers
      exact Nat.lt_of_lt_of_le hlt (offset_le_of_advancing hothers)
    · exact absurd hfirst (hstuck middle)

/-- A number of characters is passed in one way at most, so what follows decides. -/
theorem prefers_exactly_one (set : CharSet) (count : Nat) {step : Step} {lead : Lead}
    (h : Step.Prefers step lead far) :
    Step.Prefers (fun here next => exactly (one set).run count here fun there => step there next)
      (fun here there => ∃ middle, Lead.times (one set).leads count here middle ∧
        lead middle there) far := by
  induction count with
  | zero =>
      intro here next result hrun
      obtain ⟨there, hsettles⟩ := h hrun
      exact ⟨there, hsettles.congr fun other => by simp [Lead.times]⟩
  | succ count ih =>
      intro here next result hrun
      simp only [exactly] at hrun
      rcases leads_one_cases set here with ⟨middle, -, -, hleads, hone⟩ | ⟨-, hone⟩
      · rw [hone] at hrun
        obtain ⟨there, hsettles⟩ := ih hrun
        refine ⟨there, hsettles.congr fun other => ?_⟩
        simp only [Lead.times, hleads, exists_eq_left]
      · rw [hone] at hrun
        cases hrun

/-- An unbounded repetition of one character goes as far as it can, or stops as soon as it can. -/
theorem prefers_repeated_one (set : CharSet) (least : Nat) (far : Bool) :
    Step.Prefers (repeated (one set) least none far).run (repeated (one set) least none far).leads
      far := by
  intro here next result h
  cases least with
  | zero => exact prefers_anyNumber_one set far h
  | succ required =>
      exact prefers_exactly_one set required (prefers_atLeastOnce_one set far) h

theorem leads_optional_one_iff {set : CharSet} {greedy : Bool} :
    (repeated (one set) 0 (some 1) greedy).leads here there ↔
      (one set).leads here there ∨ there = here := by
  constructor
  · rintro ⟨middle, count, rfl, hle, hcount⟩
    match count, hle with
    | 0, _ => exact Or.inr hcount
    | 1, _ =>
        obtain ⟨last, hone, rfl⟩ := hcount
        exact Or.inl hone
  · rintro (hone | rfl)
    · exact ⟨here, 1, rfl, Nat.le_refl 1, there, hone, rfl⟩
    · exact ⟨there, 0, rfl, Nat.zero_le _, rfl⟩

theorem prefers_optional_one (set : CharSet) (far : Bool) :
    Step.Prefers (repeated (one set) 0 (some 1) far).run (repeated (one set) 0 (some 1) far).leads
      far := by
  intro here next result h
  have hlt (other : Cursor) (hother : (one set).leads here other) : here.offset < other.offset := by
    obtain ⟨c, rest, -, -, rfl⟩ := hother
    exact Nat.lt_succ_self _
  change prefer far (fun _ => (one set).run here next) (fun _ => next here) = some result at h
  obtain ⟨there, hsettles⟩ := exists_settles_of_prefer
    (fun hsome => prefers_one set far hsome) (fun hnone _ => next_eq_none_of_leads hnone) rfl hlt h
  exact ⟨there, hsettles.congr fun other => leads_optional_one_iff.symm⟩

/-! ## Sequences -/

/-- An expression without groups ends in one way at an offset. -/
theorem eq_of_leads_of_offset_eq {expr : Expr} (hfree : expr.groupCount = 0) {first second : Cursor}
    (hfirst : expr.leads here first) (hsecond : expr.leads here second)
    (hoffset : first.offset = second.offset) : first = second := by
  obtain ⟨text, htext⟩ := expr.exists_reaches_of_leads here first hfirst
  obtain ⟨text', htext'⟩ := expr.exists_reaches_of_leads here second hsecond
  have hgroups := (expr.groups_eq_of_leads hfree here first hfirst).trans
    (expr.groups_eq_of_leads hfree here second hsecond).symm
  have hlength : text.length = text'.length :=
    Nat.add_left_cancel (htext.offset_eq.symm.trans (hoffset.trans htext'.offset_eq))
  obtain ⟨rfl, hrest⟩ := List.append_inj (htext.rest_eq.symm.trans htext'.rest_eq) hlength
  have hbefore := htext.before_eq.trans htext'.before_eq.symm
  cases first
  cases second
  simp_all

/-- A sequence comes to the preferred place of both parts together if a preferred way through the
first part never leads behind a place to which another way leads. -/
theorem prefers_seq {first second : Expr} (hfree : first.groupCount = 0)
    (hfirst : Step.Prefers first.run first.leads far)
    (hsecond : Step.Prefers second.run second.leads far)
    (hahead : ∀ {here middle other there end' : Cursor}, first.leads here middle →
      first.leads here other → Ahead far middle.offset other.offset →
      second.leads middle there → second.leads other end' → ¬ Ahead far end'.offset there.offset) :
    Step.Prefers (seq first second).run (seq first second).leads far := by
  intro here next result h
  obtain ⟨middle, hmiddle, haccepts, hnone⟩ := hfirst h
  obtain ⟨there, hthere, haccepts', hnone'⟩ := hsecond haccepts
  refine ⟨there, ⟨middle, hmiddle, hthere⟩, haccepts', ?_⟩
  rintro end' ⟨other, hother, hend⟩ hbefore
  rcases ahead_trichotomy far other.offset middle.offset with hlt | heq | hlt
  · exact next_eq_none_of_leads (hnone other hother hlt) hend
  · obtain rfl := eq_of_leads_of_offset_eq hfree hother hmiddle heq
    exact hnone' end' hend hbefore
  · exact absurd hbefore (hahead hmiddle hother hlt hthere hend)

end Expr

end Marginalia.Pattern
