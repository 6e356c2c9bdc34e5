import Marginalia.Pattern.CharSet

/-! # Patterns and how they match

A pattern is a regular expression with capturing groups and the leftmost-first rule: of the
ways to match at the leftmost position, the one that the order of alternatives and the
greediness of repetitions prefer is taken. `Expr.run` tries the ways in this order and hands
each end position to a continuation until one accepts.
-/

namespace Marginalia

namespace Pattern

/-- What may stand on one side of a place: a character of the set, and the edge of the line if
`edge` holds. -/
structure Side where
  set : CharSet
  edge : Bool
  deriving DecidableEq, Repr

/-- Whether the side is as it may be: beside a character, or at the edge. -/
def Side.admits (side : Side) : Option Char → Bool
  | some c => side.set.contains c
  | none => side.edge

/-- The syntax of patterns. -/
inductive Expr
  /-- Matches the empty text everywhere. -/
  | empty
  /-- Matches only before the first character. -/
  | start
  /-- Matches only after the last character. -/
  | finish
  /-- Matches the empty text between two sides that are as one of the pairs says. -/
  | between (pairs : List (Side × Side))
  /-- Matches one character of the set. -/
  | one (set : CharSet)
  | seq (first second : Expr)
  /-- Matches what `first` or `second` matches, and prefers `first`. -/
  | either (first second : Expr)
  /-- Matches what `body` matches and records where. -/
  | group (index : Nat) (body : Expr)
  /-- Matches `body` at least `least` and at most `most` times in a row; a greedy repetition
  prefers to go on, any other prefers to stop. -/
  | repeated (body : Expr) (least : Nat) (most : Option Nat) (greedy : Bool)
  deriving DecidableEq, Repr

/-- A piece of a line, from the offset `start` up to but without the offset `stop`. -/
structure Span where
  start : Nat
  stop : Nat
  deriving DecidableEq, Repr

namespace Span

/-- The characters of the line that lie in the span. -/
def slice (span : Span) (line : List Char) : List Char :=
  (line.drop span.start).take (span.stop - span.start)

end Span

/-- A place in a line: how many characters lie before it and the last of them, those that lie
after it, and the groups that were closed on the way, the latest first. -/
structure Cursor where
  offset : Nat
  before : Option Char
  rest : List Char
  groups : List (Nat × Span)
  deriving DecidableEq, Repr

/-- What is asked of the place where a match ends. -/
abbrev Next := Cursor → Option Cursor

/-- A way to go on from a place: it offers its end places to the continuation in order. -/
abbrev Step := Cursor → Next → Option Cursor

/-- Tries to go on when `greedy` holds and to stop otherwise, and then the other of the two. -/
def prefer (greedy : Bool) (goOn stop : Unit → Option Cursor) : Option Cursor :=
  if greedy then (goOn ()).orElse stop else (stop ()).orElse goOn

def exactly (step : Step) : Nat → Step
  | 0, here, next => next here
  | count + 1, here, next => step here fun there => exactly step count there next

def atMost (step : Step) (greedy : Bool) : Nat → Step
  | 0, here, next => next here
  | count + 1, here, next =>
    prefer greedy
      (fun _ => step here fun there => atMost step greedy count there next)
      (fun _ => next here)

/-- The step any number of times, each time past at least one character. The fuel is the
number of characters that are left. -/
def many (step : Step) (greedy : Bool) : Nat → Step
  | 0, here, next => next here
  | fuel + 1, here, next =>
    prefer greedy
      (fun _ => step here fun there =>
        if here.offset < there.offset then many step greedy fuel there next else none)
      (fun _ => next here)

/-- The step at least once; once it has passed no character it is not taken again. -/
def atLeastOnce (step : Step) (greedy : Bool) : Step := fun here next =>
  step here fun there =>
    if here.offset < there.offset then many step greedy there.rest.length there next
    else next there

/-- The step any number of times, with no upper bound. -/
def anyNumber (step : Step) (greedy : Bool) : Step := fun here next =>
  prefer greedy (fun _ => atLeastOnce step greedy here next) (fun _ => next here)

/-- The step between `least` and `most` times. -/
def repeating (step : Step) (least : Nat) (most : Option Nat) (greedy : Bool) : Step :=
  fun here next =>
    match most, least with
    | some most, _ =>
      exactly step least here fun there => atMost step greedy (most - least) there next
    | none, 0 => anyNumber step greedy here next
    | none, required + 1 =>
      exactly step required here fun there => atLeastOnce step greedy there next

namespace Expr

/-- Offers the places where the expression can end, in order of preference. -/
def run : Expr → Step
  | empty, here, next => next here
  | start, here, next => if here.offset == 0 then next here else none
  | finish, here, next => if here.rest.isEmpty then next here else none
  | between pairs, here, next =>
    if pairs.any fun pair => pair.1.admits here.before && pair.2.admits here.rest.head? then
      next here
    else none
  | one set, here, next =>
    match here.rest with
    | [] => none
    | c :: rest =>
      if set.contains c then
        next { here with offset := here.offset + 1, before := some c, rest }
      else none
  | seq first second, here, next => first.run here fun there => second.run there next
  | either first second, here, next =>
    (first.run here next).orElse fun _ => second.run here next
  | group index body, here, next =>
    body.run here fun there =>
      next { there with groups := (index, ⟨here.offset, there.offset⟩) :: there.groups }
  | repeated body least most greedy, here, next =>
    repeating body.run least most greedy here next

/-- The expressions one after the other. -/
def followedBy : Expr → Expr → Expr
  | empty, second => second
  | first, empty => first
  | first, second => seq first second

/-- The repetition of an expression. One that may not occur at all is nothing, and its groups
are none. -/
def times (body : Expr) (least : Nat) (most : Option Nat) (greedy : Bool) : Expr :=
  if most == some 0 then empty else repeated body least most greedy

def groupCount : Expr → Nat
  | empty | start | finish | between _ | one _ => 0
  | seq first second | either first second => first.groupCount + second.groupCount
  | group _ body => body.groupCount + 1
  | repeated body _ _ _ => body.groupCount

/-- The first match of the expression in the text that begins at the offset, behind the given
character. -/
def searchFrom (expr : Expr) (offset : Nat) (before : Option Char) :
    List Char → Option Cursor
  | [] => expr.run ⟨offset, before, [], []⟩ some
  | c :: rest =>
    (expr.run ⟨offset, before, c :: rest, []⟩ some).orElse fun _ =>
      expr.searchFrom (offset + 1) (some c) rest

@[simp] theorem run_empty (here : Cursor) (next : Next) : empty.run here next = next here := rfl

@[simp] theorem run_one_nil (set : CharSet) (offset : Nat) (before : Option Char)
    (groups : List (Nat × Span)) (next : Next) :
    (one set).run ⟨offset, before, [], groups⟩ next = none := rfl

@[simp] theorem run_one_cons (set : CharSet) (offset : Nat) (before : Option Char) (c : Char)
    (rest : List Char) (groups : List (Nat × Span)) (next : Next) :
    (one set).run ⟨offset, before, c :: rest, groups⟩ next =
      if set.contains c then next ⟨offset + 1, some c, rest, groups⟩ else none := rfl

@[simp] theorem run_seq (first second : Expr) (here : Cursor) (next : Next) :
    (seq first second).run here next =
      first.run here fun there => second.run there next := rfl

@[simp] theorem run_group (index : Nat) (body : Expr) (here : Cursor) (next : Next) :
    (group index body).run here next =
      body.run here fun there =>
        next { there with groups := (index, ⟨here.offset, there.offset⟩) :: there.groups } := rfl

end Expr

end Pattern

/-- A pattern: its text, what the text means and how many groups it captures. -/
structure Pattern where
  source : String
  expr : Pattern.Expr
  groups : Nat
  deriving DecidableEq, Repr

namespace Pattern

/-- What a registry needs of the library that compiles its patterns: the pattern that a text
describes, unless the text is refused, with its groups counted. -/
class Compiler where
  compile? : String → Option Pattern
  groups_eq : ∀ {source : String} {pattern : Pattern}, compile? source = some pattern →
    pattern.groups = pattern.expr.groupCount

/-- The groups of the first match of the pattern in the line: `none` when nothing matches,
and otherwise a function from a group's index to the text it captured last, which is empty
for a group that captured nothing. -/
def captures? (pattern : Pattern) (line : List Char) : Option (Nat → List Char) :=
  (pattern.expr.searchFrom 0 none line).map fun found index =>
    match found.groups.lookup index with
    | some span => span.slice line
    | none => []

end Pattern

end Marginalia
