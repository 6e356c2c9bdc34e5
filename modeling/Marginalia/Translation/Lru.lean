/-! # Maps in the order of use

A bounded map from texts that knows in which order its keys were used. When it is full, the entry
that was used least recently makes room for a new one. Getting a value and pushing one in are uses
of its key; peeking, asking for a key and overwriting a value are none.
-/

namespace Marginalia

/-- A bounded map, the entry that was used least recently first. -/
structure Lru (α : Type) where
  capacity : Nat
  entries : List (String × α) := []
  deriving DecidableEq, Repr

namespace Lru

variable {α : Type}

def size (map : Lru α) : Nat := map.entries.length

/-- The value under a key, as it is without a use of the key. -/
def peek? (map : Lru α) (key : String) : Option α := map.entries.lookup key

/-- Whether a key is there, without a use of it. -/
def contains (map : Lru α) (key : String) : Bool := (map.peek? key).isSome

/-- The entries with the value under the key replaced. -/
def replace (key : String) (value : α) : List (String × α) → List (String × α)
  | [] => []
  | entry :: rest =>
    if entry.1 == key then (key, value) :: rest else entry :: replace key value rest

/-- Replaces the value under a key in its place, if the key is there, without a use of it. -/
def overwrite? (map : Lru α) (key : String) (value : α) : Option (Lru α) :=
  if map.contains key then some { map with entries := replace key value map.entries } else none

/-- The map with its key as the one that was used last. -/
def promote (map : Lru α) (key : String) : Lru α :=
  match map.peek? key with
  | some value => { map with entries := map.entries.filter (·.1 != key) ++ [(key, value)] }
  | none => map

/-- Reads the value under a key, as a use of the key. -/
def get (map : Lru α) (key : String) : Option α × Lru α := (map.peek? key, map.promote key)

/-- The entries that stay when a new key comes in. -/
def kept (map : Lru α) : List (String × α) :=
  if map.size < map.capacity then map.entries else map.entries.drop 1

/-- Puts a value under a key, as a use of the key, and gives back the entry that goes for it: the
one that the key had, or else the one that was used least recently when there is no room. -/
def push (map : Lru α) (key : String) (value : α) : Option (String × α) × Lru α :=
  match map.peek? key with
  | some old =>
    let replaced := { map with entries := replace key value map.entries }
    (some (key, old), replaced.promote key)
  | none =>
    (if map.size < map.capacity then none else map.entries.head?,
      { map with entries := map.kept ++ [(key, value)] })

def clear (map : Lru α) : Lru α := { map with entries := [] }

-- Of two keys the one that was not got goes for a third one; after a peek the older one does.
example :
    let map : Lru Nat := { capacity := 2, entries := [("a", 1), ("b", 2)] }
    ((map.get "a").2.push "c" 3).1 = some ("b", 2) ∧ (map.push "c" 3).1 = some ("a", 1) ∧
      map.peek? "a" = (map.get "a").1 := by
  decide

end Lru

end Marginalia
