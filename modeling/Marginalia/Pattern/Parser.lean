import Marginalia.Pattern.Basic

/-! # Reading patterns

A compiler of patterns. It reads literal characters, escaped punctuation, `.`, `^`, `$`, the
edges of words, classes with ranges, negation, nesting and set operations, the escapes
`\s \d \w` and their complements, groups that capture, capture under a name or only group,
alternatives, greedy and lazy repetitions, and the flags `i`, `m`, `s`, `R`, `U` and `u`. The
language has more than it reads: classes that go by Unicode properties, the verbose flag `x`, and
patterns and groups with the flag `u` switched off. And there is no bound here on the size of a
pattern. A registry is not tied to this compiler and may be given another one.
-/

namespace Marginalia.Pattern

/-- What an escape stands for. -/
inductive Escape
  | char (c : Char)
  | set (set : CharSet)
  | anchor (expr : Expr)

/-- The value of the hexadecimal digits that fill the whole list. -/
def hexValue? (digits : List Char) : Option Nat :=
  if digits.isEmpty then none
  else digits.foldlM (fun value c =>
    if c.isDigit then some (16 * value + (c.toNat - '0'.toNat))
    else if 'a' ≤ c ∧ c ≤ 'f' then some (16 * value + (c.toNat - 'a'.toNat + 10))
    else if 'A' ≤ c ∧ c ≤ 'F' then some (16 * value + (c.toNat - 'A'.toNat + 10))
    else none) 0

/-- The character with the given code point, if there is one. -/
def charOfPoint? (point : Nat) : Option Char :=
  if h : point.isValidChar then some (Char.ofNatAux point h) else none

/-- Reads the code point of an escape: `width` hexadecimal digits, or any number in braces. -/
def readCodePoint (width : Nat) : List Char → Option (Char × List Char)
  | '\x7b' :: rest => do
    let digits := rest.takeWhile (· != '\x7d')
    let c ← charOfPoint? (← hexValue? digits)
    match rest.drop digits.length with
    | _ :: rest => some (c, rest)
    | [] => none
  | text =>
    if text.length < width then none
    else do some (← charOfPoint? (← hexValue? (text.take width)), text.drop width)

/-! ## Places between characters -/

/-- Whatever stands there. -/
def Side.any : Side := ⟨.all, true⟩

def Side.word : Side := ⟨.word, false⟩

def Side.noWord : Side := ⟨.complement .word, true⟩

/-- A place where a word begins or ends. -/
def wordEdge : Expr := .between [(.noWord, .word), (.word, .noWord)]

/-- The edges of words that have names. -/
def namedEdge? : String → Option Expr
  | "start" => some (.between [(.noWord, .word)])
  | "end" => some (.between [(.word, .noWord)])
  | "start-half" => some (.between [(.noWord, .any)])
  | "end-half" => some (.between [(.any, .noWord)])
  | _ => none

/-- Reads what may follow the escape for the edge of a word: the name of an edge in braces. What
begins with no letter of a name is left for the bounds of a repetition. -/
def readEdge (text : List Char) : Option (Expr × List Char) :=
  match text with
  | '\x7b' :: rest =>
    let name := rest.takeWhile fun c => c.isAlpha || c == '-'
    match name, rest.drop name.length with
    | [], [] => none
    | [], _ => some (wordEdge, text)
    | name, '\x7d' :: rest => do some (← namedEdge? (String.ofList name), rest)
    | _, _ => none
  | _ => some (wordEdge, text)

/-! ## Escapes -/

/-- A character that may follow a backslash to stand for itself: punctuation, blanks and
control characters of ASCII, without the angle brackets. -/
def isEscapable (c : Char) : Bool :=
  c.toNat < 128 && !c.isAlphanum && c != '<' && c != '>'

/-- Reads what follows a backslash. -/
def readEscape : List Char → Option (Escape × List Char)
  | 's' :: rest => some (.set .blank, rest)
  | 'S' :: rest => some (.set (.complement .blank), rest)
  | 'd' :: rest => some (.set .digit, rest)
  | 'D' :: rest => some (.set (.complement .digit), rest)
  | 'w' :: rest => some (.set .word, rest)
  | 'W' :: rest => some (.set (.complement .word), rest)
  | 't' :: rest => some (.char '\t', rest)
  | 'n' :: rest => some (.char '\n', rest)
  | 'r' :: rest => some (.char '\r', rest)
  | 'f' :: rest => some (.char '\x0c', rest)
  | 'v' :: rest => some (.char '\x0b', rest)
  | 'a' :: rest => some (.char '\x07', rest)
  | 'x' :: rest => do let (c, rest) ← readCodePoint 2 rest; some (.char c, rest)
  | 'u' :: rest => do let (c, rest) ← readCodePoint 4 rest; some (.char c, rest)
  | 'U' :: rest => do let (c, rest) ← readCodePoint 8 rest; some (.char c, rest)
  | 'A' :: rest => some (.anchor .start, rest)
  | 'z' :: rest => some (.anchor .finish, rest)
  | 'b' :: rest => do let (edge, rest) ← readEdge rest; some (.anchor edge, rest)
  | 'B' :: rest => some (.anchor (.between [(.word, .word), (.noWord, .noWord)]), rest)
  | '<' :: rest => some (.anchor (.between [(.noWord, .word)]), rest)
  | '>' :: rest => some (.anchor (.between [(.word, .noWord)]), rest)
  | c :: rest => if isEscapable c then some (.char c, rest) else none
  | [] => none

/-! ## Classes -/

/-- The set closed under case when case is to be ignored. -/
def casing (ignoreCase : Bool) (set : CharSet) : CharSet :=
  if ignoreCase then .anyCase set else set

def ofRanges (ranges : List (Char × Char)) : CharSet :=
  ranges.foldl (fun set (first, last) => .union set (.range first last)) .none

/-- The classes of ASCII that can be named inside a bracket. -/
def namedClass? : String → Option CharSet
  | "alnum" => some (ofRanges [('0', '9'), ('A', 'Z'), ('a', 'z')])
  | "alpha" => some (ofRanges [('A', 'Z'), ('a', 'z')])
  | "ascii" => some (ofRanges [('\x00', '\x7f')])
  | "blank" => some (ofRanges [('\t', '\t'), (' ', ' ')])
  | "cntrl" => some (ofRanges [('\x00', '\x1f'), ('\x7f', '\x7f')])
  | "digit" => some (ofRanges [('0', '9')])
  | "graph" => some (ofRanges [('!', '~')])
  | "lower" => some (ofRanges [('a', 'z')])
  | "print" => some (ofRanges [(' ', '~')])
  | "punct" => some (ofRanges [('!', '/'), (':', '@'), ('[', '\x60'), ('\x7b', '~')])
  | "space" => some (ofRanges [('\t', '\r'), (' ', ' ')])
  | "upper" => some (ofRanges [('A', 'Z')])
  | "word" => some (ofRanges [('0', '9'), ('A', 'Z'), ('_', '_'), ('a', 'z')])
  | "xdigit" => some (ofRanges [('0', '9'), ('A', 'F'), ('a', 'f')])
  | _ => none

/-- Reads a named class after its opening bracket, as in `[:alpha:]` or `[:^alpha:]`. -/
def readNamedClass : List Char → Option (CharSet × List Char)
  | ':' :: rest => do
    let (negated, rest) := match rest with
      | '^' :: rest => (true, rest)
      | _ => (false, rest)
    let name := rest.takeWhile (· != ':')
    let set ← namedClass? (String.ofList name)
    match rest.drop name.length with
    | ':' :: ']' :: rest => some (if negated then .complement set else set, rest)
    | _ => none
  | _ => none

/-- Reads a character or an escape inside a bracket. -/
def readClassAtom : List Char → Option (Escape × List Char)
  | '\\' :: rest =>
    match readEscape rest with
    | some (.anchor _, _) => none
    | read => read
  | c :: rest => some (.char c, rest)
  | [] => none

/-- Reads a character, an escape or a range inside a bracket. -/
def readClassItem (ignoreCase : Bool) (text : List Char) : Option (CharSet × List Char) := do
  let (first, rest) ← readClassAtom text
  let isRange := match rest with
    | '-' :: ']' :: _ | '-' :: '-' :: _ => false
    | '-' :: _ => true
    | _ => false
  if isRange then
    let (last, rest) ← readClassAtom rest.tail
    match first, last with
    | .char first, .char last =>
      if first ≤ last then some (casing ignoreCase (.range first last), rest) else none
    | _, _ => none
  else
    match first with
    | .char c => some (casing ignoreCase (.single c), rest)
    | .set set => some (set, rest)
    | .anchor _ => none

/-- A set that waits for the second operand of the operator behind it. -/
abbrev PendingSet := CharSet → CharSet

mutual

/-- Reads a class after its opening bracket. A hyphen or a closing bracket that stands first
is literal. -/
def readClass (ignoreCase : Bool) : Nat → List Char → Option (CharSet × List Char)
  | 0, _ => none
  | fuel + 1, text => do
    let (negated, text) := match text with
      | '^' :: text => (true, text)
      | _ => (false, text)
    let hyphens := text.takeWhile (· == '-')
    let text := text.drop hyphens.length
    let (found, text) := match hyphens, text with
      | [], ']' :: text => (CharSet.single ']', text)
      | [], text => (.none, text)
      | _, text => (.single '-', text)
    let (set, rest) ← readClassItems ignoreCase fuel id (casing ignoreCase found) text
    some (if negated then .complement set else set, rest)

/-- Reads the items of a class up to its closing bracket, after those in `found`. -/
def readClassItems (ignoreCase : Bool) :
    Nat → PendingSet → CharSet → List Char → Option (CharSet × List Char)
  | 0, _, _, _ => none
  | fuel + 1, pending, found, text =>
    match text with
    | [] => none
    | ']' :: rest => some (pending found, rest)
    | '&' :: '&' :: rest =>
      let left := pending found
      readClassItems ignoreCase fuel (.inter left) .none rest
    | '-' :: '-' :: rest =>
      let left := pending found
      readClassItems ignoreCase fuel (.diff left) .none rest
    | '~' :: '~' :: rest =>
      let left := pending found
      readClassItems ignoreCase fuel
        (fun right => .union (.diff left right) (.diff right left)) .none rest
    | '[' :: rest =>
      match readNamedClass rest with
      | some (set, rest) =>
        readClassItems ignoreCase fuel pending (.union found (casing ignoreCase set)) rest
      | none => do
        let (set, rest) ← readClass ignoreCase fuel rest
        readClassItems ignoreCase fuel pending (.union found set) rest
    | text => do
      let (set, rest) ← readClassItem ignoreCase text
      readClassItems ignoreCase fuel pending (.union found set) rest

end

/-! ## Repetitions -/

/-- Reads a number of at most 32 bits, with blanks around it. -/
def readCount (text : List Char) : Option (Nat × List Char) :=
  let text := Text.dropBlanks text
  let digits := text.takeWhile Char.isDigit
  let value := digits.foldl (fun value c => 10 * value + (c.toNat - '0'.toNat)) 0
  if digits.isEmpty || Nat.pow 2 32 ≤ value then none
  else some (value, Text.dropBlanks (text.drop digits.length))

/-- Reads the bounds of a counted repetition after its opening brace. -/
def readBounds (text : List Char) : Option ((Nat × Option Nat) × List Char) := do
  let (least, rest) ← readCount text
  match rest with
  | '\x7d' :: rest => some ((least, some least), rest)
  | ',' :: '\x7d' :: rest => some ((least, none), rest)
  | ',' :: rest =>
    let (most, rest) ← readCount rest
    match rest with
    | '\x7d' :: rest => if least ≤ most then some ((least, some most), rest) else none
    | _ => none
  | _ => none

/-- Reads the bounds that follow a repeatable item, if any do. -/
def readRepetition : List Char → Option (Option (Nat × Option Nat) × List Char)
  | '*' :: rest => some (some (0, none), rest)
  | '+' :: rest => some (some (1, none), rest)
  | '?' :: rest => some (some (0, some 1), rest)
  | '\x7b' :: rest => do let (bounds, rest) ← readBounds rest; some (some bounds, rest)
  | rest => some (none, rest)

/-- Reads all the repetitions that follow an item; a question mark makes one lazy, and the
flag `U` exchanges lazy and greedy. -/
def readRepetitions (swapGreed : Bool) : Nat → Expr → List Char → Option (Expr × List Char)
  | 0, item, rest => some (item, rest)
  | fuel + 1, item, text => do
    match ← readRepetition text with
    | (none, rest) => some (item, rest)
    | (some (least, most), rest) =>
      let (lazy, rest) := match rest with
        | '?' :: rest => (true, rest)
        | _ => (false, rest)
      readRepetitions swapGreed fuel (item.times least most (lazy == swapGreed)) rest

/-! ## Groups, sequences and alternatives -/

/-- The settings that a pattern changes as it goes. -/
structure Flags where
  ignoreCase : Bool := false
  /-- Whether `^` and `$` match at the ends of all lines. -/
  multiline : Bool := false
  dotMatchesNewline : Bool := false
  /-- Whether a carriage return ends a line as well. -/
  carriageReturns : Bool := false
  swapGreed : Bool := false

/-- How far the reading of a pattern has come. -/
structure Reading where
  rest : List Char
  flags : Flags
  groups : Nat
  names : List (List Char)

/-- Switches the flag of a letter. -/
def Flags.set (flags : Flags) (value : Bool) : Char → Option Flags
  | 'i' => some { flags with ignoreCase := value }
  | 'm' => some { flags with multiline := value }
  | 's' => some { flags with dotMatchesNewline := value }
  | 'R' => some { flags with carriageReturns := value }
  | 'U' => some { flags with swapGreed := value }
  | 'u' => if value then some flags else none
  | _ => none

/-- The flags as a list of letters changes them: each letter once, those after a single hyphen
switched off. -/
def Flags.change? (flags : Flags) (letters : List Char) : Option Flags :=
  let on := letters.takeWhile (· != '-')
  match letters.drop on.length with
  | [] => if on.isEmpty || !decide on.Nodup then none else on.foldlM (·.set true ·) flags
  | _ :: off =>
    if off.isEmpty || !decide (on ++ off).Nodup then none
    else do off.foldlM (·.set false ·) (← on.foldlM (·.set true ·) flags)

/-- Whether the characters can name a group. -/
def isGroupName : List Char → Bool
  | [] => false
  | c :: rest =>
    (c == '_' || Text.isAlphabetic c) &&
      rest.all fun c => c == '_' || c == '.' || c == '[' || c == ']' || Text.isAlphanumeric c

/-- What the text after an opening parenthesis begins. -/
inductive Opening
  /-- A group that captures, under a name if it has one. -/
  | capture (name : Option (List Char))
  /-- A group that only groups, with flags of its own. -/
  | plain (flags : Flags)
  /-- New flags for the rest of the group around. -/
  | setting (flags : Flags)

/-- Reads the name of a group up to its closing angle bracket. -/
def readGroupName (names : List (List Char)) (text : List Char) :
    Option (List Char × List Char) :=
  let name := text.takeWhile (· != '>')
  match text.drop name.length with
  | _ :: rest => if isGroupName name && !names.contains name then some (name, rest) else none
  | [] => none

/-- Reads what follows an opening parenthesis. -/
def readOpening (flags : Flags) (names : List (List Char)) :
    List Char → Option (Opening × List Char)
  | '?' :: 'P' :: '<' :: rest => do
    let (name, rest) ← readGroupName names rest
    some (.capture (some name), rest)
  | '?' :: '<' :: rest => do
    let (name, rest) ← readGroupName names rest
    some (.capture (some name), rest)
  | '?' :: ':' :: rest => some (.plain flags, rest)
  | '?' :: rest =>
    let letters := rest.takeWhile fun c => c != ':' && c != ')'
    match flags.change? letters, rest.drop letters.length with
    | some flags, ':' :: rest => some (.plain flags, rest)
    | some flags, ')' :: rest => some (.setting flags, rest)
    | _, _ => none
  | rest => some (.capture none, rest)

/-- What `^` matches. -/
def Flags.lineStart (flags : Flags) : Expr :=
  if !flags.multiline then .start
  else if !flags.carriageReturns then .between [(⟨.single '\n', true⟩, .any)]
  else .between [(⟨.single '\n', true⟩, .any),
    (⟨.single '\r', false⟩, ⟨.complement (.single '\n'), true⟩)]

/-- What `$` matches. -/
def Flags.lineFinish (flags : Flags) : Expr :=
  if !flags.multiline then .finish
  else if !flags.carriageReturns then .between [(.any, ⟨.single '\n', true⟩)]
  else .between [(.any, ⟨.single '\r', true⟩),
    (⟨.complement (.single '\r'), true⟩, ⟨.single '\n', false⟩)]

/-- The characters that `.` matches. -/
def Flags.dot (flags : Flags) : CharSet :=
  if flags.dotMatchesNewline then .all
  else if flags.carriageReturns then .complement (.union (.single '\n') (.single '\r'))
  else .complement (.single '\n')

def literal (flags : Flags) (c : Char) : Expr := .one (casing flags.ignoreCase (.single c))

/-- Reads an item that is not a group, without the repetitions behind it. -/
def readSimple (flags : Flags) : List Char → Option (Expr × List Char)
  | '[' :: rest => do
    let (set, rest) ← readClass flags.ignoreCase (rest.length + 1) rest
    some (.one set, rest)
  | '\\' :: rest => do
    match ← readEscape rest with
    | (.char c, rest) => some (literal flags c, rest)
    | (.set set, rest) => some (.one set, rest)
    | (.anchor expr, rest) => some (expr, rest)
  | '.' :: rest => some (.one flags.dot, rest)
  | '^' :: rest => some (flags.lineStart, rest)
  | '$' :: rest => some (flags.lineFinish, rest)
  | '*' :: _ | '+' :: _ | '?' :: _ | '\x7b' :: _ => none
  | c :: rest => some (literal flags c, rest)
  | [] => none

mutual

/-- Reads alternatives up to a closing parenthesis or the end. -/
def readChoice : Nat → Reading → Option (Expr × Reading)
  | 0, _ => none
  | fuel + 1, reading => do
    let (first, reading) ← readSequence fuel reading
    match reading.rest with
    | '|' :: rest =>
      let (others, reading) ← readChoice fuel { reading with rest }
      some (.either first others, reading)
    | _ => some (first, reading)

/-- Reads items up to a bar, a closing parenthesis or the end. -/
def readSequence : Nat → Reading → Option (Expr × Reading)
  | 0, _ => none
  | fuel + 1, reading =>
    match reading.rest with
    | [] | '|' :: _ | ')' :: _ => some (.empty, reading)
    | _ => do
      let (item, reading) ← readItem fuel reading
      let (others, reading) ← readSequence fuel reading
      some (item.followedBy others, reading)

/-- Reads one item with the repetitions behind it. -/
def readItem : Nat → Reading → Option (Expr × Reading)
  | 0, _ => none
  | fuel + 1, reading => do
    let (item, reading) ← match reading.rest with
      | '(' :: rest =>
        match ← readOpening reading.flags reading.names rest with
        | (.setting flags, rest) => return (.empty, { reading with rest, flags })
        | (.plain flags, rest) =>
          let (body, inner) ← readChoice fuel { reading with rest, flags }
          match inner.rest with
          | ')' :: rest => some (body, { inner with rest, flags := reading.flags })
          | _ => none
        | (.capture name, rest) =>
          let index := reading.groups + 1
          let names := name.toList ++ reading.names
          let (body, inner) ← readChoice fuel { reading with rest, groups := index, names }
          match inner.rest with
          | ')' :: rest => some (.group index body, { inner with rest, flags := reading.flags })
          | _ => none
      | rest => do
        let (item, rest) ← readSimple reading.flags rest
        some (item, { reading with rest })
    let (item, rest) ←
      readRepetitions reading.flags.swapGreed reading.rest.length item reading.rest
    some (item, { reading with rest })

end

/-- The pattern that a text describes, if it describes one. -/
def parse? (source : String) : Option Pattern := do
  let text := source.toList
  let (expr, reading) ← readChoice (3 * text.length + 3)
    { rest := text, flags := { }, groups := 0, names := [] }
  match reading.rest with
  | [] => some { source, expr, groups := expr.groupCount }
  | _ => none

theorem groups_of_parse? {source : String} {pattern : Pattern}
    (h : parse? source = some pattern) : pattern.groups = pattern.expr.groupCount := by
  simp only [parse?, Option.bind_eq_bind, Option.bind_eq_some_iff] at h
  obtain ⟨⟨expr, reading⟩, -, hrest⟩ := h
  dsimp only at hrest
  split at hrest
  next =>
    obtain rfl := Option.some.inj hrest
    rfl
  next => cases hrest

instance : Compiler where
  compile? := parse?
  groups_eq := groups_of_parse?

end Marginalia.Pattern
