import Marginalia.Text.Lowercase
import Marginalia.Translation.Basic
import Marginalia.Translation.Lru

/-! # The translation cache

A store of translations with a bound, where the entry that was made first makes room for a new
one. It is kept in a map that goes by the order of use, but in such a way that nothing else than
the making of an entry counts as a use: reading only peeks, and storing under a key that is there
overwrites the value in its place.
-/

namespace Marginalia

/-- A bounded store of translations by key, the oldest entry first. Without capacity it stores
nothing. -/
structure Cache extends Lru Translation
  deriving DecidableEq, Repr

namespace Cache

/-- The capacity when nothing else is asked for. -/
def defaultCapacity : Nat := 1000

/-- The key of a text and a target language: the trimmed text in lowercase, two colons and the
language. -/
def key (text target : String) : String := Text.lower (Text.trim text) ++ "::" ++ target

def size (cache : Cache) : Nat := cache.toLru.size

def find? (cache : Cache) (key : String) : Option Translation := cache.peek? key

def contains (cache : Cache) (key : String) : Bool := cache.toLru.contains key

/-- Stores a translation under a key. A full store drops its oldest entry for a new key, and
one without capacity keeps nothing. -/
def set (cache : Cache) (key : String) (value : Translation) : Cache :=
  if cache.capacity == 0 then cache
  else
    match cache.overwrite? key value with
    | some map => { toLru := map }
    | none => { toLru := (cache.push key value).2 }

def clear (cache : Cache) : Cache := { toLru := cache.toLru.clear }

theorem contains_eq (cache : Cache) (key : String) :
    cache.contains key = (cache.find? key).isSome := rfl

theorem set_of_capacity_zero {cache : Cache} (hzero : cache.capacity = 0) (key : String)
    (value : Translation) : cache.set key value = cache := by
  simp [set, hzero]

theorem set_of_contains {cache : Cache} {key : String} (hcapacity : cache.capacity ≠ 0)
    (h : cache.contains key = true) (value : Translation) :
    cache.set key value =
      { capacity := cache.capacity, entries := Lru.replace key value cache.entries } := by
  rw [contains] at h
  simp [set, hcapacity, Lru.overwrite?, h]

theorem set_of_not_contains {cache : Cache} {key : String} (hcapacity : cache.capacity ≠ 0)
    (h : ¬ cache.contains key = true) (value : Translation) :
    cache.set key value =
      { capacity := cache.capacity, entries := cache.kept ++ [(key, value)] } := by
  have hnone : cache.peek? key = none := by
    rwa [contains_eq, Option.not_isSome_iff_eq_none] at h
  simp [set, hcapacity, Lru.overwrite?, Lru.contains, Lru.push, hnone]

@[simp] theorem capacity_set (cache : Cache) (key : String) (value : Translation) :
    (cache.set key value).capacity = cache.capacity := by
  by_cases hzero : cache.capacity = 0
  · rw [set_of_capacity_zero hzero]
  · by_cases hcontains : cache.contains key = true
    · rw [set_of_contains hzero hcontains]
    · rw [set_of_not_contains hzero hcontains]

@[simp] theorem entries_clear (cache : Cache) : cache.clear.entries = [] := rfl

@[simp] theorem size_clear (cache : Cache) : cache.clear.size = 0 := rfl

end Cache

def Request.key (request : Request) : String := Cache.key request.text request.options.target

end Marginalia
