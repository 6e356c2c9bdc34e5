import Marginalia.Proofs.Pattern.Leads

/-! # The search finds what there is

A step offers a relation when it tries the places of the relation and no others. Every way to
repeat a step offers the repetition of its relation, and `Expr.run` offers `Expr.leads`.
-/

namespace Marginalia.Pattern

/-- A step offers a relation: it succeeds only at a place of the relation that the continuation
accepts, and it succeeds if there is such a place. -/
structure Step.Offers (step : Step) (lead : Lead) : Prop where
  sound : ∀ {here : Cursor} {next : Next} {result : Cursor}, step here next = some result →
    ∃ there, lead here there ∧ next there = some result
  complete : ∀ {here there : Cursor} {next : Next}, lead here there →
    (next there).isSome = true → (step here next).isSome = true

theorem prefer_eq_some {greedy : Bool} {goOn stop : Unit → Option Cursor} {result : Cursor}
    (h : prefer greedy goOn stop = some result) :
    goOn () = some result ∨ stop () = some result := by
  unfold prefer at h
  split at h <;> rw [Option.orElse_eq_or, Option.or_eq_some_iff] at h
  · exact h.imp_right And.right
  · exact (h.imp_right And.right).symm

theorem isSome_prefer (greedy : Bool) (goOn stop : Unit → Option Cursor) :
    (prefer greedy goOn stop).isSome = ((goOn ()).isSome || (stop ()).isSome) := by
  unfold prefer
  split <;> rw [Option.orElse_eq_or, Option.isSome_or]
  exact Bool.or_comm _ _

namespace Step.Offers

variable {step : Step} {lead : Lead}

theorem exactly (h : step.Offers lead) (count : Nat) :
    Step.Offers (exactly step count) (lead.times count) := by
  induction count with
  | zero => exact ⟨fun hnext => ⟨_, rfl, hnext⟩, fun hlead hnext => hlead ▸ hnext⟩
  | succ count ih =>
      refine ⟨fun hstep => ?_, fun hlead hnext => ?_⟩
      · obtain ⟨middle, hfirst, hothers⟩ := h.sound hstep
        obtain ⟨there, hothers, hnext⟩ := ih.sound hothers
        exact ⟨there, ⟨middle, hfirst, hothers⟩, hnext⟩
      · obtain ⟨middle, hfirst, hothers⟩ := hlead
        exact h.complete hfirst (ih.complete hothers hnext)

theorem atMost (h : step.Offers lead) (greedy : Bool) (bound : Nat) :
    Step.Offers (atMost step greedy bound)
      fun here there => ∃ count, count ≤ bound ∧ lead.times count here there := by
  induction bound with
  | zero =>
      refine ⟨fun hnext => ⟨_, ⟨0, Nat.le_refl 0, rfl⟩, hnext⟩, ?_⟩
      rintro here there next ⟨count, hle, hlead⟩ hnext
      obtain rfl : count = 0 := Nat.le_zero.mp hle
      exact hlead ▸ hnext
  | succ bound ih =>
      refine ⟨fun hstep => ?_, ?_⟩
      · rcases prefer_eq_some hstep with hstep | hnext
        · obtain ⟨middle, hfirst, hothers⟩ := h.sound hstep
          obtain ⟨there, ⟨count, hle, hothers⟩, hnext⟩ := ih.sound hothers
          exact ⟨there, ⟨count + 1, Nat.succ_le_succ hle, middle, hfirst, hothers⟩, hnext⟩
        · exact ⟨_, ⟨0, Nat.zero_le _, rfl⟩, hnext⟩
      · rintro here there next ⟨count, hle, hlead⟩ hnext
        rw [Pattern.atMost, isSome_prefer, Bool.or_eq_true]
        cases count with
        | zero => exact Or.inr (hlead ▸ hnext)
        | succ count =>
            obtain ⟨middle, hfirst, hothers⟩ := hlead
            have hrest := ih.complete ⟨count, Nat.succ_le_succ_iff.mp hle, hothers⟩ hnext
            exact Or.inl (h.complete hfirst hrest)

theorem many_sound (h : step.Offers lead) (greedy : Bool) (fuel : Nat) {here : Cursor}
    {next : Next} {result : Cursor} (hstep : many step greedy fuel here next = some result) :
    ∃ there, Relation.ReflTransGen lead.advancing here there ∧ next there = some result := by
  induction fuel generalizing here with
  | zero => exact ⟨here, .refl, hstep⟩
  | succ fuel ih =>
      rcases prefer_eq_some hstep with hstep | hnext
      · obtain ⟨middle, hfirst, hothers⟩ := h.sound hstep
        split at hothers
        next hlt =>
          obtain ⟨there, hothers, hnext⟩ := ih hothers
          exact ⟨there, .head ⟨hfirst, hlt⟩ hothers, hnext⟩
        next => cases hothers
      · exact ⟨here, .refl, hnext⟩

/-- The characters that are left bound the number of times that pass one, so with that much
fuel none is missed. -/
theorem many_complete (h : step.Offers lead)
    (hforward : ∀ here there, lead here there → ∃ text, here.Reaches text there)
    (greedy : Bool) (fuel : Nat) {here there : Cursor} {next : Next}
    (hfuel : here.rest.length ≤ fuel) (hlead : Relation.ReflTransGen lead.advancing here there)
    (hnext : (next there).isSome = true) : (many step greedy fuel here next).isSome = true := by
  induction fuel generalizing here with
  | zero =>
      rcases hlead.cases_head with rfl | ⟨middle, ⟨hfirst, hlt⟩, -⟩
      · exact hnext
      · obtain ⟨text, htext⟩ := hforward here middle hfirst
        have := htext.length_lt hlt
        omega
  | succ fuel ih =>
      rw [many, isSome_prefer, Bool.or_eq_true]
      rcases hlead.cases_head with rfl | ⟨middle, ⟨hfirst, hlt⟩, hothers⟩
      · exact Or.inr hnext
      · obtain ⟨text, htext⟩ := hforward here middle hfirst
        -- What is left behind this time is shorter, so the fuel that is left suffices for it.
        have hshorter := htext.length_lt hlt
        refine Or.inl (h.complete hfirst ?_)
        rw [if_pos hlt]
        exact ih (by omega) hothers

theorem atLeastOnce (h : step.Offers lead)
    (hforward : ∀ here there, lead here there → ∃ text, here.Reaches text there)
    (greedy : Bool) : Step.Offers (atLeastOnce step greedy) lead.onceOrMore := by
  refine ⟨fun hstep => ?_, ?_⟩
  · obtain ⟨middle, hfirst, hothers⟩ := h.sound hstep
    split at hothers
    next hlt =>
      obtain ⟨there, hothers, hnext⟩ := h.many_sound greedy _ hothers
      exact ⟨there, ⟨middle, hfirst, by rwa [if_pos hlt]⟩, hnext⟩
    next hle => exact ⟨middle, ⟨middle, hfirst, by rw [if_neg hle]⟩, hothers⟩
  · rintro here there next ⟨middle, hfirst, hothers⟩ hnext
    refine h.complete hfirst ?_
    split at hothers
    next hlt =>
      rw [if_pos hlt]
      exact h.many_complete hforward greedy _ (Nat.le_refl _) hothers hnext
    next hle =>
      rw [if_neg hle]
      exact hothers ▸ hnext

theorem repeating (h : step.Offers lead)
    (hforward : ∀ here there, lead here there → ∃ text, here.Reaches text there)
    (least : Nat) (most : Option Nat) (greedy : Bool) :
    Step.Offers (repeating step least most greedy) (lead.repeated least most) := by
  have honce := h.atLeastOnce hforward greedy
  -- The three bounds are three searches: counted, free, and free after the required times.
  match most, least with
  | some most, least =>
      refine ⟨fun hstep => ?_, ?_⟩
      · obtain ⟨middle, hrequired, hothers⟩ := (h.exactly least).sound hstep
        obtain ⟨there, ⟨count, hle, hothers⟩, hnext⟩ := (h.atMost greedy _).sound hothers
        exact ⟨there, ⟨middle, count, hrequired, hle, hothers⟩, hnext⟩
      · rintro here there next ⟨middle, count, hrequired, hle, hothers⟩ hnext
        have hrest := (h.atMost greedy _).complete ⟨count, hle, hothers⟩ hnext
        exact (h.exactly least).complete hrequired hrest
  | none, 0 =>
      refine ⟨fun {here next result} hstep => ?_, fun {here there next} hlead hnext => ?_⟩
      · change anyNumber step greedy here next = some result at hstep
        rcases prefer_eq_some hstep with hstep | hnext
        · obtain ⟨there, hlead, hnext⟩ := honce.sound hstep
          exact ⟨there, Or.inl hlead, hnext⟩
        · exact ⟨here, Or.inr rfl, hnext⟩
      · change (anyNumber step greedy here next).isSome = true
        rw [anyNumber, isSome_prefer, Bool.or_eq_true]
        rcases hlead with hlead | rfl
        · exact Or.inl (honce.complete hlead hnext)
        · exact Or.inr hnext
  | none, required + 1 =>
      refine ⟨fun hstep => ?_, ?_⟩
      · obtain ⟨middle, hrequired, hothers⟩ := (h.exactly required).sound hstep
        obtain ⟨there, hothers, hnext⟩ := honce.sound hothers
        exact ⟨there, ⟨middle, hrequired, hothers⟩, hnext⟩
      · rintro here there next ⟨middle, hrequired, hothers⟩ hnext
        exact (h.exactly required).complete hrequired (honce.complete hothers hnext)

end Step.Offers

namespace Expr

/-- The search tries the places to which the expression leads. -/
theorem run_offers (expr : Expr) : Step.Offers expr.run expr.leads := by
  induction expr with
  | empty => exact ⟨fun hnext => ⟨_, rfl, hnext⟩, fun hlead hnext => hlead ▸ hnext⟩
  | start =>
      refine ⟨fun {here _ _} h => ?_, fun {here _ _} hlead hnext => ?_⟩
      · by_cases hzero : here.offset = 0
        · exact ⟨here, ⟨hzero, rfl⟩, by simpa [run, hzero] using h⟩
        · -- Elsewhere the search gives up at once.
          simp [run, hzero] at h
      · obtain ⟨hzero, rfl⟩ := hlead
        simpa [run, hzero] using hnext
  | finish =>
      refine ⟨fun {here _ _} h => ?_, fun {here _ _} hlead hnext => ?_⟩
      · by_cases hempty : here.rest = []
        · exact ⟨here, ⟨hempty, rfl⟩, by simpa [run, hempty] using h⟩
        · simp [run, hempty] at h
      · obtain ⟨hempty, rfl⟩ := hlead
        simpa [run, hempty] using hnext
  | between pairs =>
      have hholds (here : Cursor) : (pairs.any fun pair =>
          pair.1.admits here.before && pair.2.admits here.rest.head?) = true ↔
          ∃ pair ∈ pairs, pair.1.admits here.before = true ∧
            pair.2.admits here.rest.head? = true := by
        simp only [List.any_eq_true, Bool.and_eq_true]
      refine ⟨fun {here _ _} h => ?_, fun {here _ _} hlead hnext => ?_⟩
      · rw [run] at h
        split at h
        next hany => exact ⟨here, ⟨(hholds here).mp hany, rfl⟩, h⟩
        next => cases h
      · obtain ⟨hpair, rfl⟩ := hlead
        rw [run, if_pos ((hholds _).mpr hpair)]
        exact hnext
  | one set =>
      refine ⟨fun {here _ _} h => ?_, fun {here _ _} hlead hnext => ?_⟩
      · obtain ⟨offset, before, rest, groups⟩ := here
        cases rest with
        | nil => simp at h
        | cons c rest =>
            by_cases hmem : set.contains c = true
            · exact ⟨_, ⟨c, rest, rfl, hmem, rfl⟩, by simpa [hmem] using h⟩
            · simp [hmem] at h
      · obtain ⟨offset, before, rest, groups⟩ := here
        obtain ⟨c, rest, rfl, hmem, rfl⟩ := hlead
        simpa [hmem] using hnext
  | seq first second ihfirst ihsecond =>
      refine ⟨fun h => ?_, fun hlead hnext => ?_⟩
      · obtain ⟨middle, hfirst, hsecond⟩ := ihfirst.sound h
        obtain ⟨there, hsecond, hnext⟩ := ihsecond.sound hsecond
        exact ⟨there, ⟨middle, hfirst, hsecond⟩, hnext⟩
      · obtain ⟨middle, hfirst, hsecond⟩ := hlead
        exact ihfirst.complete hfirst (ihsecond.complete hsecond hnext)
  | either first second ihfirst ihsecond =>
      refine ⟨fun {here next _} h => ?_, fun {here _ next} hlead hnext => ?_⟩
      · rw [run, Option.orElse_eq_or, Option.or_eq_some_iff] at h
        rcases h with h | ⟨-, h⟩
        · obtain ⟨there, hfirst, hnext⟩ := ihfirst.sound h
          exact ⟨there, Or.inl hfirst, hnext⟩
        · obtain ⟨there, hsecond, hnext⟩ := ihsecond.sound h
          exact ⟨there, Or.inr hsecond, hnext⟩
      · rw [run, Option.orElse_eq_or, Option.isSome_or, Bool.or_eq_true]
        exact hlead.imp (fun hfirst => ihfirst.complete hfirst hnext)
          fun hsecond => ihsecond.complete hsecond hnext
  | group index body ih =>
      refine ⟨fun h => ?_, fun hlead hnext => ?_⟩
      · obtain ⟨inner, hbody, hnext⟩ := ih.sound h
        exact ⟨_, ⟨inner, hbody, rfl⟩, hnext⟩
      · obtain ⟨inner, hbody, rfl⟩ := hlead
        exact ih.complete hbody hnext
  | repeated body least most greedy ih =>
      exact ih.repeating body.exists_reaches_of_leads least most greedy

end Expr

end Marginalia.Pattern
