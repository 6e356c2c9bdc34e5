import Marginalia.Proofs.Comment.Forms
import Marginalia.Proofs.Pattern.PreferredDivision

/-! # The parts of comments

The openers, bodies and closers of comments as parts of patterns. Each prefers what its quantifier
says although its texts can be spelled in several ways, because a token never begins with a blank.
A rule that is made of such parts finds the preferred division of a line and nothing else.
-/

namespace Marginalia

open Pattern

namespace Pattern

/-- A token that opens or closes comments. -/
structure Token where
  characters : List Char
  ne_nil : characters ≠ []
  marks : characters.all Text.isMark = true

namespace Token

variable (token : Token)

theorem exists_cons : ∃ c others, token.characters = c :: others ∧ Text.isBlank c = false := by
  obtain ⟨characters, ne_nil, marks⟩ := token
  obtain ⟨c, others, rfl⟩ := List.exists_cons_of_ne_nil ne_nil
  exact ⟨c, others, rfl,
    Text.isBlank_eq_false_of_isMark (List.all_eq_true.mp marks c List.mem_cons_self)⟩

def slashes : Token := ⟨['/', '/'], by simp, by decide +kernel⟩

def slashStar : Token := ⟨['/', '*'], by simp, by decide +kernel⟩

def star : Token := ⟨['*'], by simp, by decide +kernel⟩

def starSlash : Token := ⟨['*', '/'], by simp, by decide +kernel⟩

end Token

/-- The place behind a text is determined by it. -/
theorem Cursor.Passes.unique {here first second : Cursor} {text : List Char}
    (hfirst : here.Passes text first) (hsecond : here.Passes text second) : first = second := by
  have hrest := List.append_cancel_left (hfirst.rest_eq.symm.trans hsecond.rest_eq)
  have hoffset := hfirst.offset_eq.trans hsecond.offset_eq.symm
  have hbefore := hfirst.before_eq.trans hsecond.before_eq.symm
  have hgroups := hfirst.groups_eq.trans hsecond.groups_eq.symm
  cases first
  cases second
  simp_all

namespace Expr

/-! ## Preferences -/

variable {far : Bool}

/-- A sequence of which the first part leads to one place only where the second one can begin. -/
theorem prefers_seq_of_unique {first second : Expr} (hfree : first.groupCount = 0)
    (hfirst : Step.Prefers first.run first.leads far)
    (hsecond : Step.Prefers second.run second.leads far)
    (hunique : ∀ {here middle other there last : Cursor}, first.leads here middle →
      first.leads here other → second.leads middle there → second.leads other last →
      middle = other) :
    Step.Prefers (seq first second).run (seq first second).leads far := by
  refine prefers_seq hfree hfirst hsecond ?_
  intro here middle other there last hmiddle hother hahead hthere hlast
  rw [hunique hmiddle hother hthere hlast] at hahead
  exact absurd hahead not_ahead_self

theorem prefers_blanks : Step.Prefers blanks.run blanks.leads true :=
  prefers_repeated_one .blank 0 true

theorem prefers_content (greedy : Bool) :
    Step.Prefers (content greedy).run (content greedy).leads greedy :=
  prefers_repeated_one _ 1 greedy

theorem prefers_token (characters : List Char) {rest : Expr}
    (hrest : Step.Prefers rest.run rest.leads far) :
    Step.Prefers (token characters rest).run (token characters rest).leads far := by
  induction characters with
  | nil => exact hrest
  | cons c characters ih =>
      refine prefers_seq_of_unique rfl (prefers_one _ far) ih ?_
      rintro here _ _ - - ⟨_, _, hrest, -, rfl⟩ ⟨_, _, hrest', -, rfl⟩ - -
      obtain ⟨rfl, rfl⟩ := List.cons.inj (hrest.symm.trans hrest')
      rfl

theorem exists_rest_of_leads_token {c : Char} {characters : List Char} {rest : Expr}
    {here there : Cursor} (h : (token (c :: characters) rest).leads here there) :
    ∃ after, here.rest = c :: after := by
  obtain ⟨_, ⟨d, after, hrest, hd, -⟩, -⟩ := h
  rw [CharSet.contains_single, beq_iff_eq] at hd
  exact ⟨after, hd ▸ hrest⟩

/-- Blanks in front of a token end where the token begins. -/
theorem prefers_blanks_token (mark : Token) {rest : Expr}
    (hrest : Step.Prefers rest.run rest.leads true) :
    Step.Prefers (seq blanks (token mark.characters rest)).run
      (seq blanks (token mark.characters rest)).leads true := by
  refine prefers_seq_of_unique rfl prefers_blanks (prefers_token _ hrest) ?_
  intro here middle other there last hmiddle hother hthere hlast
  obtain ⟨c, others, hmark, hc⟩ := mark.exists_cons
  rw [hmark] at hthere hlast
  obtain ⟨text, htext, hpasses⟩ := (spells_blanks here middle).mp hmiddle
  obtain ⟨text', htext', hpasses'⟩ := (spells_blanks here other).mp hother
  obtain ⟨after, hafter⟩ := exists_rest_of_leads_token hthere
  obtain ⟨after', hafter'⟩ := exists_rest_of_leads_token hlast
  -- Both are the leading blanks of what is left here.
  have hleading : here.rest.takeWhile Text.isBlank = text := by
    rw [hpasses.rest_eq, hafter, Text.takeWhile_isBlank_append htext hc]
  have hleading' : here.rest.takeWhile Text.isBlank = text' := by
    rw [hpasses'.rest_eq, hafter', Text.takeWhile_isBlank_append htext' hc]
  obtain rfl := hleading.symm.trans hleading'
  exact hpasses.unique hpasses'

theorem prefers_padded (mark : Token) :
    Step.Prefers (padded mark.characters).run (padded mark.characters).leads true :=
  prefers_blanks_token mark prefers_blanks

/-- One more mark and blanks: without the mark no blank follows. -/
theorem prefers_optional_blanks {set : CharSet}
    (hset : ∀ c, set.contains c = true → Text.isBlank c = false) :
    Step.Prefers (seq (repeated (one set) 0 (some 1) true) blanks).run
      (seq (repeated (one set) 0 (some 1) true) blanks).leads true := by
  refine prefers_seq rfl (prefers_optional_one set true) prefers_blanks ?_
  intro here middle other there last hmiddle hother hahead hthere hlast hbefore
  rw [leads_optional_one_iff] at hmiddle hother
  obtain ⟨text, -, hpasses⟩ := (spells_blanks middle there).mp hthere
  obtain ⟨text', htext', hpasses'⟩ := (spells_blanks other last).mp hlast
  have hbefore : there.offset < last.offset := hbefore
  have hahead : other.offset < middle.offset := hahead
  have hthere := hpasses.offset_eq
  have hlast := hpasses'.offset_eq
  rcases hmiddle with ⟨c, rest, hrest, hc, rfl⟩ | rfl
  · rcases hother with ⟨_, _, _, -, rfl⟩ | rfl
    · exact absurd hahead (Nat.lt_irrefl _)
    · -- The mark stands where the blanks would have to begin.
      cases text' with
      | nil =>
          rw [List.length_nil, Nat.add_zero] at hlast
          omega
      | cons d text' =>
          have hd := htext' d List.mem_cons_self
          have hpasses' := hpasses'.rest_eq
          rw [hrest, List.cons_append] at hpasses'
          obtain ⟨rfl, -⟩ := List.cons.inj hpasses'
          rw [hset _ hc] at hd
          cases hd
  · rcases hother with ⟨_, _, _, -, rfl⟩ | rfl
    · exact absurd hahead (Nat.not_lt.mpr (Nat.le_succ _))
    · exact absurd hahead (Nat.lt_irrefl _)

end Expr

/-! ## Parts -/

namespace Part

/-- One character or more on the line. -/
def content (greedy : Bool) : Part where
  expr := Expr.content greedy
  texts text := text ≠ [] ∧ '\n' ∉ text
  far := greedy
  groupCount_eq := rfl
  spells := Expr.spells_content greedy
  prefers := Expr.prefers_content greedy

/-- Blanks, possibly none. -/
def blanks : Part where
  expr := Expr.blanks
  texts text := ∀ c ∈ text, Text.isBlank c = true
  far := true
  groupCount_eq := rfl
  spells := Expr.spells_blanks
  prefers := Expr.prefers_blanks

/-- A token with blanks on both sides. -/
def padded (mark : Token) : Part where
  expr := Expr.padded mark.characters
  texts text := ∃ before after, text = before ++ mark.characters ++ after ∧
    (∀ c ∈ before, Text.isBlank c = true) ∧ ∀ c ∈ after, Text.isBlank c = true
  far := true
  groupCount_eq := Expr.groupCount_padded mark.characters
  spells := Expr.spells_padded mark.characters
  prefers := Expr.prefers_padded mark

end Part

/-- Two slashes, another slash or an exclamation mark perhaps, and blanks on both sides. -/
def markedSlashesTexts (text : List Char) : Prop :=
  ∃ before mark after, text = before ++ ['/', '/'] ++ (mark ++ after) ∧
    (∀ c ∈ before, Text.isBlank c = true) ∧ mark.length ≤ 1 ∧ (∀ c ∈ mark, c = '/' ∨ c = '!') ∧
    ∀ c ∈ after, Text.isBlank c = true

theorem contains_slash_or_exclamation {c : Char} :
    (CharSet.union (.union .none (.single '/')) (.single '!')).contains c = true ↔
      c = '/' ∨ c = '!' := by
  simp [CharSet.contains]

theorem Expr.spells_markedSlashes : Lead.Spells markedSlashes.leads markedSlashesTexts := by
  refine (spells_seq spells_blanks (spells_token ['/', '/']
    (spells_seq (spells_optional_one _ true) spells_blanks))).congr fun text => ?_
  simp only [contains_slash_or_exclamation]
  constructor
  · rintro ⟨before, _, rfl, hbefore, _, rfl, mark, after, rfl, ⟨hlength, hmark⟩, hafter⟩
    exact ⟨before, mark, after, by rw [List.append_assoc], hbefore, hlength, hmark, hafter⟩
  · rintro ⟨before, mark, after, rfl, hbefore, hlength, hmark, hafter⟩
    exact ⟨before, _, by rw [List.append_assoc], hbefore, _, rfl, mark, after, rfl,
      ⟨hlength, hmark⟩, hafter⟩

/-- What opens a comment: a part that goes far, and the token that its texts begin with behind
blanks. No text of it has a letter or a number, and without a token there are blanks only. -/
structure Front where
  part : Part
  start : List Char
  far_eq : part.far = true
  start_marks : start.all Text.isMark = true
  exists_eq : ∀ {text}, part.texts text → ∃ before after, text = before ++ start ++ after ∧
    (∀ c ∈ before, Text.isBlank c = true) ∧ (∀ c ∈ after, Text.isAlphanumeric c = false) ∧
    (start = [] → after = [])

namespace Front

/-- Blanks alone. -/
def blanks : Front where
  part := .blanks
  start := []
  far_eq := rfl
  start_marks := rfl
  exists_eq {text} htext := ⟨text, [], by simp, htext, by simp, fun _ => rfl⟩

/-- A token among blanks. -/
def padded (mark : Token) : Front where
  part := .padded mark
  start := mark.characters
  far_eq := rfl
  start_marks := mark.marks
  exists_eq := by
    rintro text ⟨before, after, rfl, hbefore, hafter⟩
    exact ⟨before, after, rfl, hbefore,
      fun c hc => Text.isAlphanumeric_eq_false_of_isBlank (hafter c hc),
      fun hnil => absurd hnil mark.ne_nil⟩

/-- Two slashes that another mark may follow. -/
def markedSlashes : Front where
  part :=
    { expr := .markedSlashes
      texts := markedSlashesTexts
      far := true
      groupCount_eq := rfl
      spells := Expr.spells_markedSlashes
      prefers := by
        refine Expr.prefers_blanks_token .slashes (Expr.prefers_optional_blanks fun c hc => ?_)
        rcases contains_slash_or_exclamation.mp hc with rfl | rfl <;> decide }
  start := ['/', '/']
  far_eq := rfl
  start_marks := Token.slashes.marks
  exists_eq := by
    rintro text ⟨before, mark, after, rfl, hbefore, -, hmark, hafter⟩
    refine ⟨before, mark ++ after, rfl, hbefore, fun c hc => ?_, by simp⟩
    rcases List.mem_append.mp hc with hc | hc
    · rcases hmark c hc with rfl | rfl <;> decide +kernel
    · exact Text.isAlphanumeric_eq_false_of_isBlank (hafter c hc)

theorem isAlphanumeric_eq_false (front : Front) {text : List Char}
    (htext : front.part.texts text) {c : Char} (hc : c ∈ text) :
    Text.isAlphanumeric c = false := by
  obtain ⟨before, after, rfl, hbefore, hafter, -⟩ := front.exists_eq htext
  rcases List.mem_append.mp hc with hc | hc
  · rcases List.mem_append.mp hc with hc | hc
    · exact Text.isAlphanumeric_eq_false_of_isBlank (hbefore c hc)
    · exact Text.isAlphanumeric_eq_false_of_isMark (List.all_eq_true.mp front.start_marks c hc)
  · exact hafter c hc

end Front

theorem Part.isAlphanumeric_eq_false_of_padded {mark : Token} {text : List Char}
    (htext : (Part.padded mark).texts text) {c : Char} (hc : c ∈ text) :
    Text.isAlphanumeric c = false :=
  (Front.padded mark).isAlphanumeric_eq_false htext hc

/-! ## Splits -/

/-- The split of a line in the open form: the opening is the longest that leaves a body. -/
structure OpenSplit (front : Front) (line opening body : List Char) : Prop where
  line_eq : line = opening ++ body
  opening_texts : front.part.texts opening
  body_ne_nil : body ≠ []
  body_line : '\n' ∉ body
  longest : ∀ {opening' body' : List Char}, front.part.texts opening' → body' ≠ [] →
    '\n' ∉ body' → opening' ++ body' = line → opening'.length ≤ opening.length

/-- The split of a line in the closed form: the opening is the longest that leaves a body and a
closing, and behind it the body is the shortest that leaves a closing. -/
structure ClosedSplit (front : Front) (closer : Token)
    (line opening body closing : List Char) : Prop where
  line_eq : line = opening ++ (body ++ closing)
  opening_texts : front.part.texts opening
  body_ne_nil : body ≠ []
  body_line : '\n' ∉ body
  closing_texts : (Part.padded closer).texts closing
  longest : ∀ {opening' body' closing' : List Char}, front.part.texts opening' → body' ≠ [] →
    '\n' ∉ body' → (Part.padded closer).texts closing' → opening' ++ (body' ++ closing') = line →
    opening'.length ≤ opening.length
  shortest : ∀ {body' closing' : List Char}, body' ≠ [] → '\n' ∉ body' →
    (Part.padded closer).texts closing' → body' ++ closing' = body ++ closing →
    body.length ≤ body'.length

theorem preferred_singleton_iff {part : Part} {text : List Char} :
    Preferred [part] [text] ↔ part.texts text := by
  refine ⟨fun h => ?_, fun h => .cons h .nil ?_⟩
  · cases h with
    | cons spelled _ _ => exact spelled
  · rintro text' _ (_ | ⟨_, ⟨⟩⟩) hline hahead
    simp only [List.flatten_nil, List.append_nil] at hline
    rw [hline] at hahead
    exact not_ahead_self hahead

theorem preferred_pair_iff {first second : Part} {text other : List Char} :
    Preferred [first, second] [text, other] ↔
      first.texts text ∧ second.texts other ∧
        ∀ text' other', first.texts text' → second.texts other' →
          text' ++ other' = text ++ other → ¬ Ahead first.far text'.length text.length := by
  constructor
  · intro h
    cases h with
    | cons spelled others not_ahead =>
        refine ⟨spelled, preferred_singleton_iff.mp others, fun text' other' ht ho hline => ?_⟩
        exact not_ahead (.cons ht (.cons ho .nil)) (by simpa using hline)
  · rintro ⟨htext, hother, hahead⟩
    refine .cons htext (preferred_singleton_iff.mpr hother) ?_
    rintro text' _ (_ | ⟨htext', _ | ⟨hother', ⟨⟩⟩⟩) hline
    exact hahead _ _ htext' hother' (by simpa using hline)

theorem preferred_triple_iff {first second third : Part} {text other last : List Char} :
    Preferred [first, second, third] [text, other, last] ↔
      first.texts text ∧ Preferred [second, third] [other, last] ∧
        ∀ text' other' last', first.texts text' → second.texts other' → third.texts last' →
          text' ++ (other' ++ last') = text ++ (other ++ last) →
          ¬ Ahead first.far text'.length text.length := by
  constructor
  · intro h
    cases h with
    | cons spelled others not_ahead =>
        refine ⟨spelled, others, fun text' other' last' ht ho hl hline => ?_⟩
        exact not_ahead (.cons ht (.cons ho (.cons hl .nil))) (by simpa using hline)
  · rintro ⟨htext, hothers, hahead⟩
    refine .cons htext hothers ?_
    rintro text' _ (_ | ⟨htext', _ | ⟨hother', _ | ⟨hlast', ⟨⟩⟩⟩⟩) hline
    exact hahead _ _ _ htext' hother' hlast' (by simpa using hline)

variable {front : Front} {closer : Token} {line opening body closing : List Char}

theorem preferred_iff_openSplit {greedy : Bool} :
    Preferred [front.part, .content greedy] [opening, body] ↔
      OpenSplit front (opening ++ body) opening body := by
  rw [preferred_pair_iff]
  simp only [Ahead, front.far_eq, if_true, Nat.not_lt]
  constructor
  · rintro ⟨hopening, ⟨hne, hbody⟩, hlongest⟩
    exact ⟨rfl, hopening, hne, hbody, fun hopening' hne' hbody' hline =>
      hlongest _ _ hopening' ⟨hne', hbody'⟩ hline⟩
  · rintro ⟨-, hopening, hne, hbody, hlongest⟩
    exact ⟨hopening, ⟨hne, hbody⟩, fun _ _ hopening' hbody' hline =>
      hlongest hopening' hbody'.1 hbody'.2 hline⟩

theorem preferred_iff_closedSplit :
    Preferred [front.part, .content false, .padded closer] [opening, body, closing] ↔
      ClosedSplit front closer (opening ++ (body ++ closing)) opening body closing := by
  rw [preferred_triple_iff, preferred_pair_iff]
  simp only [Ahead, front.far_eq, if_true, Nat.not_lt]
  constructor
  · rintro ⟨hopening, ⟨⟨hne, hbody⟩, hclosing, hshortest⟩, hlongest⟩
    exact ⟨rfl, hopening, hne, hbody, hclosing,
      fun hopening' hne' hbody' hclosing' hline =>
        hlongest _ _ _ hopening' ⟨hne', hbody'⟩ hclosing' hline,
      fun hne' hbody' hclosing' hline =>
        Nat.not_lt.mp (hshortest _ _ ⟨hne', hbody'⟩ hclosing' hline)⟩
  · rintro ⟨-, hopening, hne, hbody, hclosing, hlongest, hshortest⟩
    exact ⟨hopening, ⟨⟨hne, hbody⟩, hclosing, fun _ _ hbody' hclosing' hline =>
        Nat.not_lt.mpr (hshortest hbody'.1 hbody'.2 hclosing' hline)⟩,
      fun _ _ _ hopening' hbody' hclosing' hline =>
        hlongest hopening' hbody'.1 hbody'.2 hclosing' hline⟩

end Pattern

namespace Rule

variable {rule : Rule} {line : String} {comment : Comment}

/-- A rule that divides lines finds the preferred division. -/
theorem extract?_eq_some_iff {parts : List Part}
    (hexpr : rule.pattern.expr = .dividing (parts.map Part.expr)) :
    rule.extract? line = some comment ↔ ∃ texts, Preferred parts texts ∧
      line.toList = texts.flatten ∧ comment.opening.toList = texts.getD 0 [] ∧
      comment.body.toList = texts.getD 1 [] ∧ comment.closing.toList = texts.getD 2 [] := by
  constructor
  · intro h
    obtain ⟨group, hgroup, rfl⟩ := Option.map_eq_some_iff.mp h
    obtain ⟨texts, hpreferred, hline, hindex⟩ := exists_preferred_of_captures? hexpr hgroup
    refine ⟨texts, hpreferred, hline, ?_⟩
    simp only [String.toList_ofList]
    exact ⟨hindex 0, hindex 1, hindex 2⟩
  · rintro ⟨texts, hpreferred, hline, hopening, hbody, hclosing⟩
    obtain ⟨group, hgroup, hindex⟩ := exists_captures?_of_preferred hexpr hpreferred hline
    rw [extract?, hgroup, Option.map_some, Option.some_inj, hindex 0, hindex 1, hindex 2,
      ← hopening, ← hbody, ← hclosing]
    simp only [String.ofList_toList]

variable {front : Front} {closer : Token}

/-- A rule of the open form finds the split with the longest opening. -/
theorem extract?_eq_some_iff_openSplit {greedy : Bool}
    (hexpr : rule.pattern.expr = .dividing [front.part.expr, .content greedy]) :
    rule.extract? line = some comment ↔ comment.closing = "" ∧
      OpenSplit front line.toList comment.opening.toList comment.body.toList := by
  have hexpr : rule.pattern.expr =
    .dividing ([front.part, .content greedy].map Part.expr) := hexpr
  rw [extract?_eq_some_iff hexpr]
  constructor
  · rintro ⟨texts, hpreferred, hline, hopening, hbody, hclosing⟩
    obtain ⟨opening, body, rfl⟩ := List.length_eq_two.mp hpreferred.spelled.length_eq.symm
    simp only [List.getD_cons_zero, List.getD_cons_succ] at hopening hbody
    simp only [List.flatten_cons, List.flatten_nil, List.append_nil] at hline
    rw [hopening, hbody, hline]
    exact ⟨String.toList_injective hclosing, preferred_iff_openSplit.mp hpreferred⟩
  · rintro ⟨hclosing, hsplit⟩
    have hline := hsplit.line_eq
    rw [hline, ← preferred_iff_openSplit] at hsplit
    exact ⟨_, hsplit, by simpa using hline, rfl, rfl, congrArg String.toList hclosing⟩

/-- A rule of the closed form finds the split with the longest opening and the shortest body. -/
theorem extract?_eq_some_iff_closedSplit
    (hexpr : rule.pattern.expr =
      .dividing [front.part.expr, .content false, .padded closer.characters]) :
    rule.extract? line = some comment ↔ ClosedSplit front closer line.toList
      comment.opening.toList comment.body.toList comment.closing.toList := by
  have hexpr : rule.pattern.expr =
    .dividing ([front.part, .content false, .padded closer].map Part.expr) := hexpr
  rw [extract?_eq_some_iff hexpr]
  constructor
  · rintro ⟨texts, hpreferred, hline, hopening, hbody, hclosing⟩
    obtain ⟨opening, body, closing, rfl⟩ :=
      List.length_eq_three.mp hpreferred.spelled.length_eq.symm
    simp only [List.getD_cons_zero, List.getD_cons_succ] at hopening hbody hclosing
    simp only [List.flatten_cons, List.flatten_nil, List.append_nil] at hline
    rw [hopening, hbody, hclosing, hline]
    exact preferred_iff_closedSplit.mp hpreferred
  · intro hsplit
    have hline := hsplit.line_eq
    rw [hline, ← preferred_iff_closedSplit] at hsplit
    exact ⟨_, hsplit, by simpa using hline, rfl, rfl, rfl⟩

end Rule

theorem RuleSet.closesOn_of_infix {set : RuleSet} {line token : String}
    (hclose : set.blockClose = some token) (h : token.toList <:+: line.toList) :
    set.closesOn line = true := by
  rw [closesOn, hclose, Option.any_some, Text.contains, Text.occursIn_iff_infix]
  exact h

end Marginalia
