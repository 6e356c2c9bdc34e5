import Marginalia.Proofs.Comment.Parts

/-! # Comments with another body

A comment whose body is replaced by a phrase is found again with the phrase as its body. Openers
and closing tokens have no letters or numbers, so neither can reach into a phrase, and the rules
that come before the one that found the comment cannot take the new line: they need another opener
or a closing token at its end.
-/

namespace Marginalia

open Pattern

namespace Text

/-- Whether the text is on one line and begins and ends with a letter or a number. -/
def isPhrase (text : List Char) : Bool :=
  text.head?.any isAlphanumeric && text.getLast?.any isAlphanumeric && !text.contains '\n'

variable {text : List Char}

theorem newline_not_mem_of_isPhrase (h : isPhrase text = true) : '\n' ∉ text := by
  simp only [isPhrase, Bool.and_eq_true, Bool.not_eq_true', List.contains_eq_mem,
    decide_eq_false_iff_not] at h
  exact h.2

theorem exists_cons_of_isPhrase (h : isPhrase text = true) :
    ∃ c rest, text = c :: rest ∧ isAlphanumeric c = true := by
  simp only [isPhrase, Bool.and_eq_true, Option.any_eq_true] at h
  obtain ⟨⟨⟨c, hhead, hc⟩, -⟩, -⟩ := h
  obtain ⟨rest, rfl⟩ := List.head?_eq_some_iff.mp hhead
  exact ⟨c, rest, rfl, hc⟩

theorem exists_concat_of_isPhrase (h : isPhrase text = true) :
    ∃ front c, text = front ++ [c] ∧ isAlphanumeric c = true := by
  simp only [isPhrase, Bool.and_eq_true, Option.any_eq_true] at h
  obtain ⟨⟨-, c, hlast, hc⟩, -⟩ := h
  obtain ⟨front, rfl⟩ := List.getLast?_eq_some_iff.mp hlast
  exact ⟨front, c, rfl, hc⟩

end Text

namespace Pattern

/-! ## Forms -/

/-- A form of comments: what opens them, and the token that closes them, if there is one. -/
structure Form where
  front : Front
  finish : Option Token

namespace Form

def bodies (form : Form) : List Expr :=
  match form.finish with
  | none => [form.front.part.expr, .content true]
  | some closer => [form.front.part.expr, .content false, .padded closer.characters]

/-- Whether the comment is the preferred split of the line. -/
def Splits (form : Form) (line : List Char) (comment : Comment) : Prop :=
  match form.finish with
  | none => comment.closing = "" ∧
    OpenSplit form.front line comment.opening.toList comment.body.toList
  | some closer => ClosedSplit form.front closer line comment.opening.toList comment.body.toList
    comment.closing.toList

variable {form : Form} {line : List Char} {comment : Comment} {text : String}

theorem Splits.line_eq (h : form.Splits line comment) :
    line = comment.opening.toList ++ (comment.body.toList ++ comment.closing.toList) := by
  unfold Splits at h
  split at h
  · rw [h.1, h.2.line_eq]
    simp
  · exact h.line_eq

theorem Splits.opening_texts (h : form.Splits line comment) :
    form.front.part.texts comment.opening.toList := by
  unfold Splits at h
  split at h
  · exact h.2.opening_texts
  · exact h.opening_texts

end Form

theorem toList_withBody (comment : Comment) (text : String) : (comment.withBody text).toList =
    comment.opening.toList ++ (text.toList ++ comment.closing.toList) := by
  rw [Comment.withBody, String.toList_append, String.toList_append, List.append_assoc]

/-- An opening ends before the first letter or number. -/
theorem Front.length_le {front : Front} {opening rest before after : List Char} {c : Char}
    (hopening : front.part.texts opening) (hc : Text.isAlphanumeric c = true)
    (heq : opening ++ rest = before ++ c :: after) : opening.length ≤ before.length := by
  rcases List.append_eq_append_iff.mp heq with ⟨more, rfl, -⟩ | ⟨more, rfl, hrest⟩
  · simp
  · cases more with
    | nil => simp
    | cons d more =>
        obtain ⟨rfl, -⟩ := List.cons.inj hrest
        rw [front.isAlphanumeric_eq_false hopening (by simp)] at hc
        cases hc

/-- A closing begins behind the last letter or number. -/
theorem length_le_of_closing {closer : Token} {closing front rest after : List Char} {c : Char}
    (hclosing : (Part.padded closer).texts closing) (hc : Text.isAlphanumeric c = true)
    (heq : front ++ closing = rest ++ [c] ++ after) : (rest ++ [c]).length ≤ front.length := by
  rcases List.append_eq_append_iff.mp heq with ⟨more, hrest, hmore⟩ | ⟨more, rfl, -⟩
  · rcases List.eq_nil_or_concat more with rfl | ⟨more, d, rfl⟩
    · rw [hrest, List.append_nil]
    · rw [List.concat_eq_append, ← List.append_assoc] at hrest
      obtain ⟨-, hlast⟩ := List.append_inj' hrest rfl
      obtain rfl := List.singleton_inj.mp hlast
      rw [Part.isAlphanumeric_eq_false_of_padded hclosing (by simp [hmore])] at hc
      cases hc
  · simp

/-- A phrase in the place of the body splits its line in the same form. -/
theorem Form.Splits.withBody {form : Form} {line : List Char} {comment : Comment} {text : String}
    (h : form.Splits line comment) (htext : Text.isPhrase text.toList = true) :
    form.Splits (comment.withBody text).toList { comment with body := text } := by
  obtain ⟨c, rest, hhead, hc⟩ := Text.exists_cons_of_isPhrase htext
  have hne : text.toList ≠ [] := by simp [hhead]
  have hnewline := Text.newline_not_mem_of_isPhrase htext
  rw [toList_withBody]
  unfold Form.Splits at h ⊢
  cases hfinish : form.finish with
  | none =>
      simp only [hfinish] at h ⊢
      obtain ⟨hclosing, hsplit⟩ := h
      refine ⟨hclosing, by simp [hclosing], hsplit.opening_texts, hne, hnewline, ?_⟩
      intro opening body hopening _ _ heq
      rw [hclosing, String.toList_empty, List.append_nil, hhead] at heq
      exact Front.length_le hopening hc heq
  | some closer =>
      simp only [hfinish] at h ⊢
      refine ⟨rfl, h.opening_texts, hne, hnewline, h.closing_texts, ?_, ?_⟩
      · intro opening body closing hopening _ _ _ heq
        rw [hhead, List.cons_append] at heq
        exact Front.length_le hopening hc heq
      · intro body closing _ _ hclosing heq
        obtain ⟨front, d, hlast, hd⟩ := Text.exists_concat_of_isPhrase htext
        rw [hlast] at heq ⊢
        exact length_le_of_closing hclosing hd heq

/-! ## Forms that keep apart -/

/-- Whether no line of a comment of the second form with a phrase as its body has the first form:
it begins with another token, or it does not end with a token. -/
def Form.apart (first second : Form) : Bool :=
  first.finish.isSome && second.finish.isNone ||
    !first.front.start.isEmpty && (second.front.start.isEmpty ||
      !first.front.start.isPrefixOf second.front.start &&
        !second.front.start.isPrefixOf first.front.start)

/-- Behind its blanks an opening begins with its token. -/
theorem Front.exists_dropBlanks_eq {front : Front} {opening : List Char}
    (hstart : front.start ≠ []) (hopening : front.part.texts opening) (rest : List Char) :
    ∃ after, Text.dropBlanks (opening ++ rest) = front.start ++ after := by
  obtain ⟨before, after, rfl, hbefore, -⟩ := front.exists_eq hopening
  obtain ⟨c, others, hcons⟩ := List.exists_cons_of_ne_nil hstart
  have hc : Text.isBlank c = false := Text.isBlank_eq_false_of_isMark <|
    List.all_eq_true.mp front.start_marks c (by simp [hcons])
  refine ⟨after ++ rest, ?_⟩
  simp only [hcons, List.append_assoc, List.cons_append]
  rw [Text.dropBlanks_append_of_blank hbefore, Text.dropBlanks_of_not_blank _ _ hc]

/-- Behind the blanks of an opening without a token the body begins. -/
theorem Front.dropBlanks_eq_of_start_eq_nil {front : Front} {opening : List Char} {c : Char}
    (hstart : front.start = []) (hopening : front.part.texts opening)
    (hc : Text.isBlank c = false) (rest : List Char) :
    Text.dropBlanks (opening ++ c :: rest) = c :: rest := by
  obtain ⟨before, after, rfl, hbefore, -, hafter⟩ := front.exists_eq hopening
  rw [hstart, hafter hstart, List.append_nil, List.append_nil,
    Text.dropBlanks_append_of_blank hbefore, Text.dropBlanks_of_not_blank _ _ hc]

theorem Form.Splits.begins_with_start {form : Form} {line : List Char} {comment : Comment}
    (h : form.Splits line comment) (hstart : form.front.start ≠ []) :
    form.front.start <+: Text.dropBlanks line := by
  obtain ⟨after, hafter⟩ := Front.exists_dropBlanks_eq hstart h.opening_texts
    (comment.body.toList ++ comment.closing.toList)
  rw [h.line_eq, hafter]
  exact List.prefix_append _ _

/-- A line that ends with a letter or a number has no closing token at its end. -/
theorem Form.not_splits_of_last {form : Form} {closer : Token} (hfinish : form.finish = some closer)
    {front : List Char} {c : Char} (hc : Text.isAlphanumeric c = true) {comment : Comment} :
    ¬ form.Splits (front ++ [c]) comment := by
  intro h
  have hline := h.line_eq
  simp only [Form.Splits, hfinish] at h
  have hclosing := h.closing_texts
  rw [← List.append_assoc, ← List.append_nil (front ++ [c])] at hline
  have hle := length_le_of_closing hclosing hc hline.symm
  have hlength := congrArg List.length hline
  obtain ⟨before, after, hparts, -⟩ := hclosing
  have hpos := List.length_pos_iff.mpr closer.ne_nil
  simp only [hparts, List.length_append, List.length_nil, List.length_singleton] at hle hlength
  omega

theorem Form.not_splits_of_apart {first second : Form} (hapart : first.apart second = true)
    {line : List Char} {comment other : Comment} (h : second.Splits line comment) {text : String}
    (htext : Text.isPhrase text.toList = true) :
    ¬ first.Splits (comment.withBody text).toList other := by
  intro hother
  have hline := toList_withBody comment text
  simp only [apart, Bool.or_eq_true, Bool.and_eq_true, Bool.not_eq_true', List.isEmpty_eq_false_iff,
    List.isEmpty_iff, Option.isSome_iff_exists, Option.isNone_iff_eq_none] at hapart
  rcases hapart with ⟨⟨closer, hfinish⟩, hnone⟩ | ⟨hstart, hdiffer⟩
  · -- The line ends with the phrase.
    obtain ⟨front, d, hlast, hd⟩ := Text.exists_concat_of_isPhrase htext
    simp only [Splits, hnone] at h
    rw [hline, h.1, hlast, String.toList_empty, List.append_nil, ← List.append_assoc] at hother
    exact not_splits_of_last hfinish hd hother
  · have hbegins := hother.begins_with_start hstart
    rw [hline] at hbegins
    rcases hdiffer with hnil | ⟨hfirst, hsecond⟩
    · -- The line begins with the phrase.
      obtain ⟨c, rest, hhead, hc⟩ := Text.exists_cons_of_isPhrase htext
      rw [hhead, List.cons_append, Front.dropBlanks_eq_of_start_eq_nil hnil h.opening_texts
        (Text.isBlank_eq_false_of_isAlphanumeric hc)] at hbegins
      obtain ⟨d, others, hcons⟩ := List.exists_cons_of_ne_nil hstart
      rw [hcons, List.cons_prefix_cons] at hbegins
      have hmark := List.all_eq_true.mp first.front.start_marks d (by simp [hcons])
      rw [hbegins.1, Text.isMark, hc, Bool.not_true, Bool.and_false] at hmark
      cases hmark
    · -- The line begins with the other token, of which neither begins with the other.
      have hne : second.front.start ≠ [] := by
        intro hnil
        simp [hnil] at hsecond
      obtain ⟨after, hafter⟩ := Front.exists_dropBlanks_eq hne h.opening_texts
        (text.toList ++ comment.closing.toList)
      rw [hafter] at hbegins
      rw [← Bool.not_eq_true, List.isPrefixOf_iff_prefix] at hfirst hsecond
      exact (List.prefix_or_prefix_of_prefix hbegins (List.prefix_append _ _)).elim hfirst hsecond

end Pattern

/-! ## Rules and rule sets -/

namespace Pattern.Token

def hash : Token := ⟨['#'], by simp, by decide +kernel⟩

def doubleQuotes : Token := ⟨['"', '"', '"'], by simp, by decide +kernel⟩

def singleQuotes : Token := ⟨['\'', '\'', '\''], by simp, by decide +kernel⟩

def markupStart : Token := ⟨['<', '!', '-', '-'], by simp, by decide +kernel⟩

def markupEnd : Token := ⟨['-', '-', '>'], by simp, by decide +kernel⟩

end Pattern.Token

/-- The forms of the rules that are known from the start. -/
def Pattern.knownForms : List Form := [
  ⟨.padded .slashes, none⟩, ⟨.markedSlashes, none⟩, ⟨.padded .slashStar, some .starSlash⟩,
  ⟨.padded .slashStar, none⟩, ⟨.padded .star, none⟩, ⟨.blanks, some .starSlash⟩,
  ⟨.padded .hash, none⟩, ⟨.padded .doubleQuotes, none⟩, ⟨.padded .singleQuotes, none⟩,
  ⟨.padded .markupStart, some .markupEnd⟩]

namespace Rule

variable {rule : Rule} {form : Form} {line : String} {comment : Comment}

/-- The form of a rule, if it is a known one. -/
def form? (rule : Rule) : Option Form :=
  knownForms.find? fun form => rule.pattern.expr == .dividing form.bodies

theorem extract?_eq_some_iff_splits (hform : rule.form? = some form) :
    rule.extract? line = some comment ↔ form.Splits line.toList comment := by
  have hexpr := List.find?_some hform
  rw [beq_iff_eq, Form.bodies] at hexpr
  unfold Form.Splits
  cases hfinish : form.finish with
  | none =>
      rw [hfinish] at hexpr
      exact extract?_eq_some_iff_openSplit hexpr
  | some closer =>
      rw [hfinish] at hexpr
      exact extract?_eq_some_iff_closedSplit hexpr

end Rule

namespace RuleSet

/-- Whether a rule and a later one have forms that keep apart. -/
def keepsApart (first second : Rule) : Bool :=
  match first.form?, second.form? with
  | some first, some second => first.apart second
  | _, _ => false

/-- Whether all rules have known forms, none can take the lines of a later one, and those for the
end of a block have the token that closes it. -/
def isStable (set : RuleSet) : Bool :=
  set.rules.all (fun rule => rule.form?.any fun form =>
    rule.kind != .blockEnd || form.finish.map (String.ofList ·.characters) == set.blockClose) &&
  decide (set.rules.Pairwise fun first second => keepsApart first second = true)

variable {set : RuleSet} {line : String} {comment : Comment}

/-- The rule that decides, among the rules of its set. -/
theorem exists_split_of_extract? (h : set.extract? line = some comment) :
    ∃ before rule after, set.rules = before ++ rule :: after ∧
      rule.extract? line = some comment ∧
      (rule.kind != .blockEnd || set.closesOn line) = true := by
  obtain ⟨_, rule, _, hrules, hrule, -⟩ := List.findSome?_eq_some_iff.mp h
  obtain ⟨first, _, hsplit, -, hfilter⟩ := List.filter_eq_append_iff.mp hrules
  obtain ⟨second, after, rfl, -, htried, -⟩ := List.filter_eq_cons_iff.mp hfilter
  exact ⟨first ++ second, rule, after, by rw [hsplit, List.append_assoc], hrule, htried⟩

/-- A rule that is tried and matches decides if none before it matches. -/
theorem extract?_eq_some_of_split {before after : List Rule} {rule : Rule}
    (hrules : set.rules = before ++ rule :: after) (hrule : rule.extract? line = some comment)
    (htried : (rule.kind != .blockEnd || set.closesOn line) = true)
    (hnone : ∀ other ∈ before, other.extract? line = none) : set.extract? line = some comment := by
  rw [extract?, rulesFor, hrules, List.filter_append, List.filter_cons, if_pos htried,
    List.findSome?_append, List.findSome?_eq_none_iff.mpr fun other hother =>
      hnone other (List.mem_of_mem_filter hother), Option.none_or, List.findSome?_cons, hrule]

theorem closesOn_withBody {form : Form} {line : List Char}
    (hfinish : form.finish.map (String.ofList ·.characters) = set.blockClose)
    (hclose : set.blockClose.isSome = true) (h : form.Splits line comment) (text : String) :
    set.closesOn (comment.withBody text) = true := by
  obtain ⟨token, htoken⟩ := Option.isSome_iff_exists.mp hclose
  rw [htoken, Option.map_eq_some_iff] at hfinish
  obtain ⟨closer, hcloser, rfl⟩ := hfinish
  simp only [Form.Splits, hcloser] at h
  obtain ⟨before, after, hclosing, -⟩ := h.closing_texts
  refine closesOn_of_infix htoken ?_
  rw [String.toList_ofList, toList_withBody, hclosing]
  exact ⟨comment.opening.toList ++ text.toList ++ before, after, by simp only [List.append_assoc]⟩

theorem blockClose_isSome_of_closesOn (h : set.closesOn line = true) :
    set.blockClose.isSome = true := by
  obtain ⟨token, htoken, -⟩ := (Option.any_eq_true _ _).mp h
  rw [htoken, Option.isSome_some]

/-- With a phrase as its body the line is taken by the rule that took it before, and as before. -/
theorem extract?_withBody (hset : set.isStable = true) (h : set.extract? line = some comment)
    {text : String} (htext : Text.isPhrase text.toList = true) :
    set.extract? (comment.withBody text) = some { comment with body := text } := by
  simp only [isStable, Bool.and_eq_true, List.all_eq_true, decide_eq_true_eq] at hset
  obtain ⟨hforms, hapart⟩ := hset
  obtain ⟨before, rule, after, hrules, hrule, htried⟩ := exists_split_of_extract? h
  rw [hrules] at hforms hapart
  obtain ⟨form, hform, hkind⟩ := (Option.any_eq_true _ _).mp (hforms rule (by simp))
  have hsplits := (rule.extract?_eq_some_iff_splits hform).mp hrule
  have htried' : (rule.kind != .blockEnd || set.closesOn (comment.withBody text)) = true := by
    rw [Bool.or_eq_true] at htried hkind ⊢
    rcases hkind with hkind | hfinish
    · exact Or.inl hkind
    · refine htried.imp_right fun hcloses => ?_
      exact closesOn_withBody (beq_iff_eq.mp hfinish) (blockClose_isSome_of_closesOn hcloses)
        hsplits text
  refine extract?_eq_some_of_split hrules
    ((rule.extract?_eq_some_iff_splits hform).mpr (hsplits.withBody htext)) htried' ?_
  intro other hother
  obtain ⟨form', hform', -⟩ :=
    (Option.any_eq_true _ _).mp (hforms other (List.mem_append_left _ hother))
  have hapart' := (List.pairwise_append.mp hapart).2.2 other hother rule List.mem_cons_self
  rw [keepsApart, hform', hform] at hapart'
  rw [Option.eq_none_iff_forall_ne_some]
  intro found hfound
  exact Form.not_splits_of_apart hapart' hsplits htext
    ((other.extract?_eq_some_iff_splits hform').mp hfound)

end RuleSet

/-- In every language that is known from the start, and in every other one, a comment with a
phrase as its body is found again. -/
theorem Registry.extract?_withBody_of_builtin {registry : Registry}
    (hbuiltin : Registry.builtin = .ok registry) {line id : String} {comment : Comment}
    (h : registry.extract? line id = some comment) {text : String}
    (htext : Text.isPhrase text.toList = true) :
    registry.extract? (comment.withBody text) id = some { comment with body := text } := by
  have hcheck := check_of_builtin hbuiltin (·.everySet RuleSet.isStable) (by decide +kernel)
  exact RuleSet.extract?_withBody (check_ruleSet hcheck rfl id) h htext

end Marginalia
