import Marginalia.Proofs.Cache.Entries
import Mathlib.Data.List.Induction
import Mathlib.Data.List.Nodup

/-! # The window of a cache

A key is new to a cache when it is stored and the cache does not have it. The keys that a cache
holds are the last ones that were new to it since it was cleared, as many as there is room for,
each with the value that was stored under it last. Reading moves nothing, and neither does
storing under a key that is there.
-/

namespace Marginalia.Cache

/-- What is asked of a cache. -/
inductive Operation
  | set (text target : String) (value : Translation)
  | get (text target : String)
  | contains (text target : String)
  | clear

/-- What a cache answers. -/
inductive Answer
  | done
  | found (value? : Option Translation)
  | present (isThere : Bool)
  deriving DecidableEq, Repr

def perform (cache : Cache) : Operation → Answer × Cache
  | .set text target value => (.done, cache.set (key text target) value)
  | .get text target => (.found (cache.find? (key text target)), cache)
  | .contains text target => (.present (cache.contains (key text target)), cache)
  | .clear => (.done, cache.clear)

/-- The last keys of a list, so many of them. -/
def window (count : Nat) (keys : List String) : List String := keys.drop (keys.length - count)

/-- The value that an operation stores under a key. -/
def Operation.stored? (wanted : String) : Operation → Option Translation
  | .set text target value => if key text target = wanted then some value else none
  | .get .. | .contains .. | .clear => none

/-- The value that was stored last under a key. -/
def lastStored? (operations : List Operation) (wanted : String) : Option Translation :=
  operations.reverse.findSome? (Operation.stored? wanted)

/-- A cache in use, and the keys that were new to it since it was cleared, the oldest first. -/
structure Ledger where
  cache : Cache
  fresh : List String := []

namespace Ledger

def record (ledger : Ledger) (operation : Operation) : Ledger where
  cache := (ledger.cache.perform operation).2
  fresh :=
    match operation with
    | .set text target _ =>
      if ledger.cache.contains (key text target) then ledger.fresh
      else ledger.fresh ++ [key text target]
    | .clear => []
    | .get .. | .contains .. => ledger.fresh

/-- A cache that was empty and the operations that were asked of it since. -/
def ofOperations (capacity : Nat) (operations : List Operation) : Ledger :=
  operations.foldl record { cache := { capacity } }

end Ledger

/-! ## Windows -/

section Window

variable {count : Nat} {keys : List String} {key : String}

theorem window_nil (count : Nat) : window count [] = [] := List.drop_nil

theorem window_zero (keys : List String) : window 0 keys = [] := List.drop_length

theorem length_window : (window count keys).length = min count keys.length := by
  rw [window, List.length_drop]
  omega

theorem window_of_length_lt (h : keys.length < count) : window count keys = keys := by
  rw [window, Nat.sub_eq_zero_of_le (Nat.le_of_lt h), List.drop_zero]

/-- A window with room for it takes a key in, and gives up its first key when it is full. -/
theorem window_concat (hpos : 0 < count) :
    window count (keys ++ [key]) =
      (if keys.length < count then window count keys else (window count keys).drop 1) ++ [key] := by
  have hlength : (keys ++ [key]).length = keys.length + 1 := by simp
  split
  next hlt =>
    rw [window_of_length_lt hlt, window, hlength, Nat.sub_eq_zero_of_le hlt, List.drop_zero]
  next hle =>
    rw [window, window, hlength, List.drop_append_of_le_length (by omega), List.drop_drop]
    congr 2
    omega

end Window

/-! ## Looking up -/

variable {cache : Cache} {stored wanted : String} {value : Translation}

theorem isSome_find?_iff :
    (cache.find? wanted).isSome = true ↔ wanted ∈ cache.entries.map Prod.fst := by
  rw [find?, Lru.peek?, List.lookup_isSome_iff]
  simp

theorem find?_eq_none (h : wanted ∉ cache.entries.map Prod.fst) : cache.find? wanted = none :=
  Lru.lookup_eq_none_iff_not_mem.mpr h

/-- Under different keys an entry is what its key leads to. -/
theorem find?_of_mem (hnodup : (cache.entries.map Prod.fst).Nodup)
    (hmem : (wanted, value) ∈ cache.entries) : cache.find? wanted = some value := by
  obtain ⟨before, after, hentries⟩ := List.append_of_mem hmem
  refine List.lookup_eq_some_iff.mpr ⟨before, after, hentries, fun entry hentry => ?_⟩
  rw [hentries, List.map_append, List.map_cons, List.nodup_append] at hnodup
  have hne := hnodup.2.2 entry.1 (List.mem_map_of_mem hentry) wanted List.mem_cons_self
  exact bne_iff_ne.mpr hne.symm

/-! ## Storing -/

/-- A translation that was stored is found, whatever made room for it. -/
theorem find?_set_self (hcapacity : cache.capacity ≠ 0) :
    (cache.set stored value).find? stored = some value := by
  by_cases hcontains : cache.contains stored = true
  · rw [set_of_contains hcapacity hcontains, find?, Lru.peek?,
      Lru.lookup_replace (isSome_find?_iff.mp hcontains), if_pos rfl]
  · have hkept : cache.kept.lookup stored = none := by
      apply Lru.lookup_eq_none_iff_not_mem.mpr
      intro hmem
      exact hcontains (isSome_find?_iff.mpr (List.map_subset Prod.fst cache.kept_subset hmem))
    rw [set_of_not_contains hcapacity hcontains, find?, Lru.peek?, List.lookup_append, hkept]
    simp

theorem lastStored?_concat {operations : List Operation} {operation : Operation} :
    lastStored? (operations ++ [operation]) wanted =
      (operation.stored? wanted).or (lastStored? operations wanted) := by
  unfold lastStored?
  rw [List.reverse_append, List.reverse_singleton, List.singleton_append, List.findSome?_cons]
  cases operation.stored? wanted <;> rfl

/-- Whether the keys of a cache are the window of a list, each with its value. -/
structure Holds (cache : Cache) (fresh : List String) (value? : String → Option Translation) :
    Prop where
  keys_eq : cache.entries.map Prod.fst = window cache.capacity fresh
  nodup : (window cache.capacity fresh).Nodup
  find?_eq : ∀ key ∈ window cache.capacity fresh, cache.find? key = value? key

theorem holds_empty (capacity : Nat) (value? : String → Option Translation) :
    Cache.Holds { capacity } [] value? := by
  refine ⟨(window_nil capacity).symm, ?_, fun wanted hwanted => ?_⟩
  · rw [window_nil]
    exact List.nodup_nil
  · rw [window_nil] at hwanted
    cases hwanted

/-- Without room the window stays empty. -/
theorem holds_of_capacity_zero (hzero : cache.capacity = 0) (hentries : cache.entries = [])
    (fresh : List String) (value? : String → Option Translation) : cache.Holds fresh value? := by
  constructor
  · rw [hentries, hzero, window_zero, List.map_nil]
  · rw [hzero, window_zero]
    exact List.nodup_nil
  · intro wanted hwanted
    rw [hzero, window_zero] at hwanted
    cases hwanted

namespace Holds

variable {fresh : List String} {value? : String → Option Translation}

theorem contains_iff (h : cache.Holds fresh value?) :
    cache.contains wanted = true ↔ wanted ∈ window cache.capacity fresh := by
  rw [contains_eq, isSome_find?_iff, h.keys_eq]

theorem find?_eq_ite (h : cache.Holds fresh value?) :
    cache.find? wanted =
      if wanted ∈ window cache.capacity fresh then value? wanted else none := by
  split
  next hmem => exact h.find?_eq wanted hmem
  next hnot => exact find?_eq_none (h.keys_eq ▸ hnot)

theorem size_eq (h : cache.Holds fresh value?) :
    cache.size = min cache.capacity fresh.length := by
  rw [size, Lru.size, ← length_window, ← h.keys_eq, List.length_map]

theorem entries_eq (h : cache.Holds fresh value?) :
    cache.entries.map (fun entry => (entry.1, some entry.2)) =
      (window cache.capacity fresh).map fun key => (key, value? key) := by
  rw [← h.keys_eq, List.map_map]
  apply List.map_congr_left
  intro entry hmem
  have hkey : entry.1 ∈ window cache.capacity fresh := h.keys_eq ▸ List.mem_map_of_mem hmem
  rw [Function.comp_apply, ← h.find?_eq entry.1 hkey]
  rw [find?_of_mem (h.keys_eq ▸ h.nodup) hmem]

/-- A use would leave the order as it is only under a key that is not there or is the newest. -/
theorem promote_eq_self_iff (h : cache.Holds fresh value?) :
    cache.promote wanted = cache.toLru ↔
      (wanted ∈ window cache.capacity fresh →
        (window cache.capacity fresh).getLast? = some wanted) := by
  have hnodup : (cache.entries.map Prod.fst).Nodup := h.keys_eq ▸ h.nodup
  rw [Lru.promote_eq_self_iff hnodup, h.keys_eq, ← h.contains_iff, imp_iff_not_or,
    Bool.not_eq_true]
  exact Iff.rfl

/-- Storing under a key that is there changes its value and nothing else. -/
theorem set_of_mem (h : cache.Holds fresh value?) (hmem : stored ∈ window cache.capacity fresh) :
    (cache.set stored value).Holds fresh
      fun wanted => if stored = wanted then some value else value? wanted := by
  have hkeys : stored ∈ cache.entries.map Prod.fst := h.keys_eq ▸ hmem
  have hcapacity : cache.capacity ≠ 0 := by
    intro hzero
    rw [hzero, window_zero] at hmem
    cases hmem
  rw [set_of_contains hcapacity (h.contains_iff.mpr hmem)]
  refine ⟨Lru.map_fst_replace.trans h.keys_eq, h.nodup, fun wanted hwanted => ?_⟩
  rw [find?, Lru.peek?, Lru.lookup_replace hkeys]
  split_ifs
  · rfl
  · exact h.find?_eq wanted hwanted

theorem map_fst_kept (h : cache.Holds fresh value?) :
    cache.kept.map Prod.fst =
      if fresh.length < cache.capacity then window cache.capacity fresh
      else (window cache.capacity fresh).drop 1 := by
  have hroom : cache.size < cache.capacity ↔ fresh.length < cache.capacity := by
    rw [h.size_eq]
    omega
  rw [← h.keys_eq, ← List.map_drop]
  simp only [Lru.kept, show cache.toLru.size = cache.size from rfl, hroom]
  split <;> rfl

theorem sublist_kept (h : cache.Holds fresh value?) :
    (cache.kept.map Prod.fst).Sublist (window cache.capacity fresh) := by
  rw [h.map_fst_kept]
  split
  · exact List.Sublist.refl _
  · exact List.drop_sublist ..

theorem lookup_kept (h : cache.Holds fresh value?) (hmem : wanted ∈ cache.kept.map Prod.fst) :
    cache.kept.lookup wanted = value? wanted := by
  rw [← h.find?_eq wanted (h.sublist_kept.subset hmem)]
  unfold Lru.kept at hmem ⊢
  split at hmem
  next hlt =>
    rw [if_pos hlt]
    rfl
  next hle =>
    rw [if_neg hle]
    exact Lru.lookup_drop_one (h.keys_eq ▸ h.nodup) hmem

/-- Storing under a new key moves the window on. -/
theorem set_of_not_mem (h : cache.Holds fresh value?)
    (hnot : stored ∉ window cache.capacity fresh) :
    (cache.set stored value).Holds (fresh ++ [stored])
      fun wanted => if stored = wanted then some value else value? wanted := by
  by_cases hzero : cache.capacity = 0
  · have hkeys := h.keys_eq
    rw [hzero, window_zero, List.map_eq_nil_iff] at hkeys
    rw [set_of_capacity_zero hzero]
    exact holds_of_capacity_zero hzero hkeys _ _
  · have hnew : stored ∉ cache.kept.map Prod.fst := fun hmem =>
      hnot (h.sublist_kept.subset hmem)
    have hkeys : (cache.kept ++ [(stored, value)]).map Prod.fst =
        window cache.capacity (fresh ++ [stored]) := by
      rw [window_concat (Nat.pos_of_ne_zero hzero), List.map_append, h.map_fst_kept]
      rfl
    rw [set_of_not_contains hzero (fun hmem => hnot (h.contains_iff.mp hmem))]
    refine ⟨hkeys, ?_, fun wanted hwanted => ?_⟩
    · rw [← hkeys, List.map_append, List.map_singleton]
      refine List.nodup_append.mpr
        ⟨h.nodup.sublist h.sublist_kept, List.nodup_singleton stored, ?_⟩
      rintro other hother last hlast rfl
      obtain rfl : other = stored := List.mem_singleton.mp hlast
      exact hnew hother
    · rw [← hkeys, List.map_append, List.mem_append] at hwanted
      rw [find?, Lru.peek?, List.lookup_append]
      rcases hwanted with hwanted | hlast
      · have hne : stored ≠ wanted := fun heq => hnew (heq ▸ hwanted)
        rw [if_neg hne, h.lookup_kept hwanted, List.lookup_cons, beq_eq_false_iff_ne.mpr hne.symm]
        exact Option.or_none
      · obtain rfl : wanted = stored := List.mem_singleton.mp hlast
        have hnone : cache.kept.lookup wanted = none := Lru.lookup_eq_none_iff_not_mem.mpr hnew
        simp [hnone]

end Holds

/-! ## All operations -/

namespace Ledger

variable {capacity : Nat} {operations : List Operation}

theorem ofOperations_concat (operation : Operation) :
    ofOperations capacity (operations ++ [operation]) =
      (ofOperations capacity operations).record operation :=
  List.foldl_concat ..

theorem capacity_ofOperations : (ofOperations capacity operations).cache.capacity = capacity := by
  induction operations using List.reverseRecOn with
  | nil => rfl
  | append_singleton operations operation ih =>
      rw [ofOperations_concat]
      cases operation with
      | set text target value => exact (capacity_set ..).trans ih
      | get text target => exact ih
      | contains text target => exact ih
      | clear => exact ih

/-- One operation moves the window as the list of new keys says. -/
theorem holds_record {ledger : Ledger}
    (h : ledger.cache.Holds ledger.fresh (lastStored? operations)) (operation : Operation) :
    (ledger.record operation).cache.Holds (ledger.record operation).fresh
      (lastStored? (operations ++ [operation])) := by
  have hlast : lastStored? (operations ++ [operation]) = fun wanted =>
      (operation.stored? wanted).or (lastStored? operations wanted) := by
    funext wanted
    exact lastStored?_concat
  rw [hlast]
  cases operation with
  | set text target value =>
      have hstored : (fun wanted => ((Operation.set text target value).stored? wanted).or
          (lastStored? operations wanted)) = fun wanted =>
            if key text target = wanted then some value else lastStored? operations wanted := by
        funext wanted
        rw [Operation.stored?]
        split_ifs <;> rfl
      rw [hstored]
      simp only [record, perform, h.contains_iff]
      split
      next hmem => exact h.set_of_mem hmem
      next hnot => exact h.set_of_not_mem hnot
  | get text target => exact h
  | contains text target => exact h
  | clear => exact holds_empty ledger.cache.capacity _

theorem holds_ofOperations (capacity : Nat) (operations : List Operation) :
    (ofOperations capacity operations).cache.Holds (ofOperations capacity operations).fresh
      (lastStored? operations) := by
  induction operations using List.reverseRecOn with
  | nil => exact holds_empty capacity _
  | append_singleton operations operation ih =>
      rw [ofOperations_concat]
      exact holds_record ih operation

end Ledger

/-- After any operations a cache that was empty holds the window of its new keys, the oldest
first and each with the value that was stored last. Its size is bounded by its capacity; it
answers from the window and does not change when it does. With reads that count as uses it would
answer the same then, but the order would change with every read of another entry than the newest
one. Storing leaves the window where it is when the key is in it, and moves it on by the key
otherwise. -/
theorem entries_eq_window (capacity : Nat) (operations : List Operation) :
    let ledger := Ledger.ofOperations capacity operations
    let held := window capacity ledger.fresh
    ledger.cache.entries.map (fun entry => (entry.1, some entry.2)) =
      held.map (fun key => (key, lastStored? operations key)) ∧
    held.Nodup ∧
    ledger.cache.size = min capacity ledger.fresh.length ∧
    ∀ text target : String,
      ledger.cache.perform (.get text target) =
        (.found (if key text target ∈ held then lastStored? operations (key text target)
          else none), ledger.cache) ∧
      ledger.cache.perform (.contains text target) =
        (.present (decide (key text target ∈ held)), ledger.cache) ∧
      (∀ wanted, (ledger.cache.get (key text target)).2.peek? wanted =
        ledger.cache.find? wanted) ∧
      ((ledger.cache.get (key text target)).2 = ledger.cache.toLru ↔
        key text target ∈ held → held.getLast? = some (key text target)) ∧
      ∀ value, (ledger.cache.perform (.set text target value)).2.entries.map Prod.fst =
        if key text target ∈ held then held
        else window capacity (ledger.fresh ++ [key text target]) := by
  intro ledger held
  have hcapacity : ledger.cache.capacity = capacity := Ledger.capacity_ofOperations
  have hholds := Ledger.holds_ofOperations capacity operations
  have hheld : window ledger.cache.capacity ledger.fresh = held := by rw [hcapacity]
  refine ⟨hheld ▸ hholds.entries_eq, hheld ▸ hholds.nodup, hcapacity ▸ hholds.size_eq, ?_⟩
  intro text target
  have hcontains : ledger.cache.contains (key text target) = true ↔ key text target ∈ held :=
    hheld ▸ hholds.contains_iff
  refine ⟨?_, ?_, Lru.peek?_promote _ _, hheld ▸ hholds.promote_eq_self_iff, fun value => ?_⟩
  · rw [perform, hholds.find?_eq_ite, hheld]
  · rw [perform, Bool.eq_iff_iff.mpr (hcontains.trans decide_eq_true_iff.symm)]
  · change (ledger.cache.set (key text target) value).entries.map Prod.fst = _
    split
    next hmem =>
      rw [(hholds.set_of_mem (hheld.symm ▸ hmem)).keys_eq, capacity_set, hheld]
    next hnot =>
      rw [(hholds.set_of_not_mem (hheld.symm ▸ hnot)).keys_eq, capacity_set, hcapacity]

-- A key that made room and is stored again is new again, and one that is overwritten is not.
example :
    let value (text : String) : Translation := ⟨text, none, "en"⟩
    let operations := [.set "a" "en" (value "1"), .set "b" "en" (value "2"),
      .set " A" "en" (value "3"), .get "a" "en", .set "c" "en" (value "4"),
      .set "a" "en" (value "5")]
    (Ledger.ofOperations 2 operations).fresh = ["a::en", "b::en", "c::en", "a::en"] ∧
      (Ledger.ofOperations 2 operations).cache.entries =
        [("c::en", value "4"), ("a::en", value "5")] := by
  decide

end Marginalia.Cache
