import Marginalia.Proofs.Cache.Lru

/-! # What a cache holds

Whatever a cache holds was put in by a store: a store adds its own entry and may take others
away, but it makes up no entry and changes none to another value.
-/

namespace Marginalia

theorem mem_of_lookup {α β : Type} [BEq α] [LawfulBEq α] {entries : List (α × β)} {key : α}
    {value : β} (h : entries.lookup key = some value) : (key, value) ∈ entries := by
  obtain ⟨before, after, rfl, -⟩ := List.lookup_eq_some_iff.mp h
  exact List.mem_append_right before List.mem_cons_self

namespace Cache

variable {cache : Cache} {key : String} {value : Translation} {entry : String × Translation}

theorem mem_of_find? (h : cache.find? key = some value) : (key, value) ∈ cache.entries :=
  mem_of_lookup h

/-- An entry after a store is the one that was stored or was there before. -/
theorem mem_of_mem_set (h : entry ∈ (cache.set key value).entries) :
    entry = (key, value) ∨ entry ∈ cache.entries := by
  by_cases hzero : cache.capacity = 0
  · rw [set_of_capacity_zero hzero] at h
    exact Or.inr h
  · by_cases hcontains : cache.contains key = true
    · rw [set_of_contains hzero hcontains] at h
      exact Lru.mem_of_mem_replace h
    · rw [set_of_not_contains hzero hcontains] at h
      rcases List.mem_append.mp h with hkept | hnew
      · exact Or.inr (cache.kept_subset hkept)
      · exact Or.inl (List.mem_singleton.mp hnew)

end Cache

end Marginalia
