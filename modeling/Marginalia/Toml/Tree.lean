import Marginalia.Data.Basic

/-! # The tables of a TOML document

While a document is read its tables remember how they came about, since this decides what may
still be added: a table that a header declared can be declared only once, a table that dotted
keys made can be extended by dotted keys only, and the elements of an array of tables are
declared one by one, where a path leads through the last of them.
-/

namespace Marginalia.Toml

/-- How a table came about. -/
inductive Origin
  /-- A header names it. -/
  | declared
  /-- It lies on the way to a table that a header names. -/
  | implied
  /-- It lies on the way of a dotted key. -/
  | dotted
  deriving DecidableEq

/-- A part of a document. -/
inductive Node
  | value (data : Data)
  | table (origin : Origin) (entries : List (String × Node))
  /-- The elements of an array of tables. -/
  | tables (elements : List (List (String × Node)))

abbrev Entries := List (String × Node)

namespace Entries

/-- Puts a node under a key: in the place of the entry with this key, else at the end. -/
def put (key : String) (node : Node) : Entries → Entries
  | [] => [(key, node)]
  | entry :: rest => if entry.1 == key then (key, node) :: rest else entry :: put key node rest

/-- Changes the table that a path of headers leads to, which is implied where it is missing. -/
def within (change : Entries → Option Entries) : List String → Entries → Option Entries
  | [], entries => change entries
  | key :: path, entries =>
    match entries.lookup key with
    | none => do some (entries.put key (.table .implied (← within change path [])))
    | some (.table origin inner) => do
      some (entries.put key (.table origin (← within change path inner)))
    | some (.tables elements) =>
      match elements.getLast? with
      | some last => do
        some (entries.put key (.tables (elements.dropLast ++ [← within change path last])))
      | none => none
    | some (.value _) => none

/-- Declares the table under a key. -/
def declare (key : String) (entries : Entries) : Option Entries :=
  match entries.lookup key with
  | none => some (entries.put key (.table .declared []))
  | some (.table .implied inner) => some (entries.put key (.table .declared inner))
  | some _ => none

/-- Adds an element to the array of tables under a key. -/
def addElement (key : String) (entries : Entries) : Option Entries :=
  match entries.lookup key with
  | none => some (entries.put key (.tables [[]]))
  | some (.tables elements) => some (entries.put key (.tables (elements ++ [[]])))
  | some _ => none

/-- Adds a value under a dotted key. The table that holds it is new, or one that dotted keys
made, unless the key has a single part. -/
def insert (data : Data) : List String → Entries → Option Entries
  | [], _ => none
  | [key], entries =>
    if (entries.lookup key).isSome then none else some (entries.put key (.value data))
  | key :: path, entries =>
    match entries.lookup key with
    | none => do some (entries.put key (.table .dotted (← insert data path [])))
    | some (.table origin inner) =>
      if origin == .declared || (path.length == 1 && origin != .dotted) then none
      else do some (entries.put key (.table origin (← insert data path inner)))
    | some (.tables elements) =>
      match elements.getLast? with
      | some last =>
        if path.length == 1 then none
        else do some (entries.put key (.tables (elements.dropLast ++ [← insert data path last])))
      | none => none
    | some (.value _) => none

end Entries

mutual

def Node.toData : Node → Data
  | .value data => data
  | .table _ entries => .record (Node.recordOf entries)
  | .tables elements => .list (Node.recordsOf elements)

def Node.recordOf : List (String × Node) → List (Option String × Data)
  | [] => []
  | (key, node) :: entries => (some key, node.toData) :: Node.recordOf entries

def Node.recordsOf : List (List (String × Node)) → List Data
  | [] => []
  | entries :: elements => .record (Node.recordOf entries) :: Node.recordsOf elements

end

end Marginalia.Toml
