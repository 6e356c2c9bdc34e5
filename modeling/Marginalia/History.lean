import Marginalia.Document

/-! # The undo history

A log of the changes that were made, with a bound: when it is full the oldest change makes
room. The newest change is the first to be taken back.
-/

namespace Marginalia

/-- A bounded log of changes, the oldest first. -/
structure History where
  capacity : Nat
  entries : List Edit := []
  deriving DecidableEq, Repr

namespace History

/-- The capacity when nothing else is asked for. -/
def defaultCapacity : Nat := 50

def size (history : History) : Nat := history.entries.length

/-- Adds a change. A full log forgets its oldest changes, and one without capacity keeps
nothing. -/
def add (history : History) (edit : Edit) : History :=
  if history.capacity == 0 then history
  else
    let kept := history.entries.drop (history.size + 1 - history.capacity)
    { history with entries := kept ++ [edit] }

def addAll (history : History) (edits : List Edit) : History := edits.foldl add history

def newest? (history : History) : Option Edit := history.entries.getLast?

def dropNewest (history : History) : History :=
  { history with entries := history.entries.dropLast }

def clear (history : History) : History := { history with entries := [] }

@[simp] theorem capacity_add (history : History) (edit : Edit) :
    (history.add edit).capacity = history.capacity := by
  unfold add; split <;> rfl

@[simp] theorem size_clear (history : History) : history.clear.size = 0 := rfl

end History

end Marginalia
