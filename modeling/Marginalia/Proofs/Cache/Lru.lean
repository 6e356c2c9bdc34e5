import Marginalia.Translation.Cache

/-! # What uses do to a map

A use of a key moves its entry behind the others and changes no value. So a read answers the same
whether it is a use or not, and afterwards the map answers the same as well; but the entry that
goes next is another one, unless the read came to nothing or found the entry that was used last.
-/

namespace Marginalia.Lru

variable {α : Type} {map : Lru α} {entries : List (String × α)} {entry : String × α}
  {key wanted stored : String} {value : α}

theorem lookup_eq_none_iff_not_mem :
    entries.lookup wanted = none ↔ wanted ∉ entries.map Prod.fst := by
  rw [← Option.not_isSome_iff_eq_none, List.lookup_isSome_iff]
  simp

/-! ## Replacing a value -/

theorem mem_of_mem_replace (h : entry ∈ replace key value entries) :
    entry = (key, value) ∨ entry ∈ entries := by
  induction entries with
  | nil => exact Or.inr h
  | cons first rest ih =>
      unfold replace at h
      split at h
      next =>
        rcases List.mem_cons.mp h with rfl | hrest
        · exact Or.inl rfl
        · exact Or.inr (List.mem_cons_of_mem first hrest)
      next =>
        rcases List.mem_cons.mp h with rfl | hrest
        · exact Or.inr List.mem_cons_self
        · exact (ih hrest).imp_right (List.mem_cons_of_mem first)

theorem map_fst_replace : (replace stored value entries).map Prod.fst = entries.map Prod.fst := by
  induction entries with
  | nil => rfl
  | cons entry rest ih =>
      unfold replace
      split
      next h => rw [List.map_cons, List.map_cons, beq_iff_eq.mp h]
      next => rw [List.map_cons, List.map_cons, ih]

/-- Replacing a value changes what its own key leads to. -/
theorem lookup_replace (hmem : stored ∈ entries.map Prod.fst) :
    (replace stored value entries).lookup wanted =
      if stored = wanted then some value else entries.lookup wanted := by
  induction entries with
  | nil => cases hmem
  | cons entry rest ih =>
      obtain ⟨first, old⟩ := entry
      unfold replace
      by_cases hfirst : first = stored
      · subst hfirst
        rw [if_pos (beq_self_eq_true _), List.lookup_cons, List.lookup_cons]
        by_cases hwanted : first = wanted
        · simp [hwanted]
        · simp [hwanted, beq_eq_false_iff_ne.mpr (Ne.symm hwanted)]
      · rw [if_neg (by simpa using hfirst)]
        have hrest : stored ∈ rest.map Prod.fst :=
          (List.mem_cons.mp hmem).resolve_left fun heq => hfirst heq.symm
        rw [List.lookup_cons, List.lookup_cons, ih hrest]
        by_cases hwanted : wanted = first
        · simp [hwanted, Ne.symm hfirst]
        · simp [beq_eq_false_iff_ne.mpr hwanted]

/-- What an entry behind the first one is, it is without the first one too. -/
theorem lookup_drop_one (hnodup : (entries.map Prod.fst).Nodup)
    (hmem : wanted ∈ (entries.drop 1).map Prod.fst) :
    (entries.drop 1).lookup wanted = entries.lookup wanted := by
  cases entries with
  | nil => rfl
  | cons entry rest =>
      obtain ⟨hnew, -⟩ := List.nodup_cons.mp hnodup
      have hne : wanted ≠ entry.1 := fun heq => hnew (heq ▸ hmem)
      rw [List.drop_one, List.tail_cons, List.lookup_cons, beq_eq_false_iff_ne.mpr hne]

theorem kept_subset (map : Lru α) : map.kept ⊆ map.entries := by
  unfold kept
  split
  · exact List.Subset.refl _
  · exact List.drop_subset ..

/-! ## Using a key -/

theorem lookup_filter_ne (hne : wanted ≠ key) :
    (entries.filter (·.1 != key)).lookup wanted = entries.lookup wanted := by
  induction entries with
  | nil => rfl
  | cons entry rest ih =>
      rw [List.filter_cons]
      split
      next => rw [List.lookup_cons, List.lookup_cons, ih]
      next hkey =>
        have hfirst : entry.1 = key := by simpa using hkey
        rw [ih, List.lookup_cons, beq_eq_false_iff_ne.mpr (hfirst ▸ hne)]

/-- A use changes no value. -/
theorem peek?_promote (map : Lru α) (key wanted : String) :
    (map.promote key).peek? wanted = map.peek? wanted := by
  unfold promote
  split
  next value hvalue =>
    rw [peek?, List.lookup_append]
    by_cases hsame : wanted = key
    · subst hsame
      have hgone : (map.entries.filter (·.1 != wanted)).lookup wanted = none :=
        lookup_eq_none_iff_not_mem.mpr (by simp)
      rw [hgone, Option.none_or, hvalue]
      simp
    · rw [lookup_filter_ne hsame, List.lookup_cons, beq_eq_false_iff_ne.mpr hsame]
      exact Option.or_none
  next => rfl

theorem promote_of_contains_eq_false (h : map.contains key = false) : map.promote key = map := by
  rw [contains, Option.isSome_eq_false_iff, Option.isNone_iff_eq_none] at h
  rw [promote, h]

/-- The entry that was used last is left where it is. -/
theorem promote_concat {before : List (String × α)}
    (hentries : map.entries = before ++ [(key, value)])
    (hnodup : (map.entries.map Prod.fst).Nodup) : map.promote key = map := by
  rw [hentries, List.map_append, List.nodup_append] at hnodup
  have hbefore : ∀ entry ∈ before, (entry.1 != key) = true := fun entry hmem =>
    bne_iff_ne.mpr (hnodup.2.2 entry.1 (List.mem_map_of_mem hmem) key List.mem_cons_self)
  have hnone : before.lookup key = none :=
    lookup_eq_none_iff_not_mem.mpr fun hmem => hnodup.2.2 key hmem key List.mem_cons_self rfl
  have hvalue : map.peek? key = some value := by
    simp [peek?, hentries, List.lookup_append, hnone]
  obtain ⟨capacity, entries⟩ := map
  subst hentries
  simp only [promote, hvalue, List.filter_append, List.filter_eq_self.mpr hbefore]
  simp

/-- A use leaves the order as it is only when the key is not there or was the last one used. -/
theorem promote_eq_self_iff (hnodup : (map.entries.map Prod.fst).Nodup) :
    map.promote key = map ↔
      map.contains key = false ∨ (map.entries.map Prod.fst).getLast? = some key := by
  constructor
  · intro h
    cases hvalue : map.peek? key with
    | none => exact Or.inl (by rw [contains, hvalue]; rfl)
    | some value =>
        right
        rw [← h, promote, hvalue]
        simp
  · rintro (habsent | hlast)
    · exact promote_of_contains_eq_false habsent
    · rw [List.getLast?_map, Option.map_eq_some_iff] at hlast
      obtain ⟨⟨_, value⟩, hlast, rfl⟩ := hlast
      obtain ⟨before, hentries⟩ := List.getLast?_eq_some_iff.mp hlast
      exact promote_concat hentries hnodup

end Marginalia.Lru
