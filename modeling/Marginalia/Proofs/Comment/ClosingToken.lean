import Marginalia.Proofs.Comment.Forms

/-! # Closing tokens of block comments

On a line that ends with the closing token of its language, the token belongs to the closing of
the comment or it ends the body, where a translation replaces it. Which of the two happens
depends on how the line opens: rules for whole lines and for the middle of a block know no
closing, and they come before the rule for the end of a block.
-/

namespace Marginalia

open Pattern Pattern.Expr

/-- The closing of the comment is the token among blanks. -/
def Comment.KeepsClosing (comment : Comment) (token : List Char) : Prop :=
  ∃ before after, comment.closing.toList = before ++ token ++ after ∧
    (∀ c ∈ before, Text.isBlank c = true) ∧ ∀ c ∈ after, Text.isBlank c = true

/-- Whether a rule for comments with slashes and stars has the form of its kind. -/
def Rule.hasSlashStarForm (rule : Rule) : Bool :=
  match rule.kind with
  | .singleLine =>
    rule.pattern.expr == .dividing [padded ['/', '/'], content true] ||
      rule.pattern.expr == .dividing [markedSlashes, content true]
  | .inlineBlock =>
    rule.pattern.expr == .dividing [padded ['/', '*'], content false, padded ['*', '/']]
  | .blockStart => rule.pattern.expr == .dividing [padded ['/', '*'], content true]
  | .blockMiddle => rule.pattern.expr == .dividing [padded ['*'], content true]
  | .blockEnd => rule.pattern.expr == .dividing [blanks, content false, padded ['*', '/']]

namespace RuleSet

/-- Whether the set has a rule of the kind. -/
def has (set : RuleSet) (kind : RuleKind) : Bool := set.rules.any (·.kind == kind)

/-- Whether the rules stand in the order of their kinds. -/
def inOrder (set : RuleSet) : Bool :=
  decide (set.rules.Pairwise fun first second => first.kind.rank ≤ second.kind.rank)

/-- Whether the set describes comments with slashes and stars: all rules have their form and
stand in order, and where a block can begin it can also begin and end on one line. -/
def isSlashStar (set : RuleSet) : Bool :=
  set.rules.all (·.hasSlashStarForm) && set.inOrder &&
    (!set.has .blockStart || set.has .inlineBlock)

/-- Whether a rule that knows no closing takes the lines that open as this one does. -/
def shadowsClosing (set : RuleSet) (line : String) : Bool :=
  (set.has .singleLine && Text.opensWith line.toList ['/', '/']) ||
    (set.has .blockMiddle && Text.opensWith line.toList ['*'])

variable {set : RuleSet} {line : String} {comment : Comment}

theorem has_eq_true_iff {kind : RuleKind} :
    set.has kind = true ↔ ∃ rule ∈ set.rules, rule.kind = kind := by
  simp only [has, List.any_eq_true, beq_iff_eq]

/-- The rule that decides comes after none that would have matched, so no rule of an earlier
kind matches. -/
theorem exists_first_rule (horder : set.inOrder = true) (h : set.extract? line = some comment) :
    ∃ rule ∈ set.rules, rule.extract? line = some comment ∧
      ∀ other ∈ set.rules, other.kind.rank < rule.kind.rank → other.extract? line = none := by
  obtain ⟨before, rule, after, hrules, hrule, hnone⟩ := List.findSome?_eq_some_iff.mp h
  have hsorted : (set.rulesFor line).Pairwise fun first second =>
      first.kind.rank ≤ second.kind.rank :=
    (of_decide_eq_true horder).sublist List.filter_sublist
  rw [hrules, List.pairwise_append, List.pairwise_cons] at hsorted
  have hmem : rule ∈ set.rulesFor line := by simp [hrules]
  refine ⟨rule, List.mem_of_mem_filter hmem, hrule, fun other hother hlt => ?_⟩
  -- Only rules for the end of a block are ever left out, and these come last.
  have hkind : other.kind ≠ .blockEnd := by
    intro heq
    rw [heq] at hlt
    have hle : rule.kind.rank ≤ 4 := by cases rule.kind <;> decide
    exact absurd (Nat.lt_of_lt_of_le hlt hle) (Nat.lt_irrefl _)
  have hother : other ∈ set.rulesFor line :=
    List.mem_filter.mpr ⟨hother, by simp [hkind]⟩
  rw [hrules] at hother
  rcases List.mem_append.mp hother with hbefore | hafter
  · exact hnone other hbefore
  · rcases List.mem_cons.mp hafter with rfl | hafter
    · exact absurd hlt (Nat.lt_irrefl _)
    · exact absurd hlt (Nat.not_lt.mpr (hsorted.2.1.1 other hafter))

end RuleSet

/-- A comment that keeps the token in its closing ends with it whatever its body becomes. -/
theorem Comment.KeepsClosing.closesWith_withBody {comment : Comment}
    (h : comment.KeepsClosing ['*', '/']) (text : String) :
    Text.closesWith (comment.withBody text).toList ['*', '/'] = true := by
  obtain ⟨before, after, hclosing, -, hafter⟩ := h
  have hline : (comment.withBody text).toList =
      (comment.opening.toList ++ text.toList ++ before) ++ ['*', '/'] ++ after := by
    rw [withBody, String.toList_append, String.toList_append, hclosing]
    simp only [List.append_assoc]
  exact Text.closesWith_of_eq ['*'] '/' hline hafter (by decide)

/-- A comment with something to translate has a character that no token has. -/
theorem Comment.exists_mem_of_isTranslatable {comment : Comment}
    (h : comment.isTranslatable = true) :
    ∃ c ∈ comment.body.toList, Text.isBlank c = false ∧ c ≠ '/' ∧ c ≠ '*' := by
  obtain ⟨c, hmem, hc⟩ := List.any_eq_true.mp h
  have hslash : Text.isAlphanumeric '/' = false := by decide +kernel
  have hstar : Text.isAlphanumeric '*' = false := by decide +kernel
  refine ⟨c, hmem, Text.isBlank_eq_false_of_isAlphanumeric hc, ?_, ?_⟩
  · rintro rfl
    rw [hslash] at hc
    cases hc
  · rintro rfl
    rw [hstar] at hc
    cases hc

namespace Rule

variable {rule : Rule} {line : String} {opener : Expr} {start : List Char}

/-- A line on which an open form finds nothing does not open with its token, unless nothing
but the token and blanks is on it. -/
theorem opensWith_eq_false_of_extract? (hopener : Opener opener start)
    (hexpr : rule.pattern.expr = .dividing [opener, content true])
    (hnone : rule.extract? line = none) (hline : '\n' ∉ line.toList) {c : Char}
    (hmem : c ∈ line.toList) (hc : Text.isBlank c = false) (hstart : c ∉ start) :
    Text.opensWith line.toList start = false := by
  by_contra hopens
  rw [Bool.not_eq_false] at hopens
  obtain ⟨before, after, heq, hbefore⟩ := Text.exists_eq_of_opensWith hopens
  have hafter : c ∈ after := Text.mem_behind_token hbefore (heq ▸ hmem) hc hstart
  have hnewline : '\n' ∉ after := fun hin => hline (heq ▸ List.mem_append_right _ hin)
  have hsome := isSome_extract?_open hopener hexpr heq hbefore (List.ne_nil_of_mem hafter) hnewline
  rw [hnone] at hsome
  cases hsome

/-- A line that opens and closes with tokens and has something between them is taken by the
closed form. -/
theorem extract?_ne_none_of_closesWith {finish : List Char} (hopener : Opener opener start)
    (hexpr : rule.pattern.expr = .dividing [opener, content false, padded finish])
    (hline : '\n' ∉ line.toList) (hclose : Text.closesWith line.toList finish = true)
    {before after : List Char} (heq : line.toList = before ++ start ++ after)
    (hbefore : ∀ c ∈ before, Text.isBlank c = true) {c : Char} (hmem : c ∈ line.toList)
    (hc : Text.isBlank c = false) (hstart : c ∉ start) (hfinish : c ∉ finish) :
    rule.extract? line ≠ none := by
  have hafter : c ∈ after := Text.mem_behind_token hbefore (heq ▸ hmem) hc hstart
  have hsuffix : after <:+ line.toList := ⟨before ++ start, heq.symm⟩
  obtain ⟨text, blanks, hsplit, htext, hblanks⟩ :=
    Text.exists_split_of_closesWith hsuffix hclose hafter hc hfinish
  have hnewline : '\n' ∉ text := fun hin => hline <| hsuffix.mem <| by
    rw [hsplit]
    exact List.mem_append_left _ (List.mem_append_left _ hin)
  rw [hsplit] at heq
  have hsome := isSome_extract?_closed hopener hexpr heq hbefore (List.ne_nil_of_mem htext)
    hnewline hblanks
  exact Option.isSome_iff_ne_none.mp hsome

/-- The rules for whole lines open with two slashes. -/
theorem exists_opener_of_singleLine (hform : rule.hasSlashStarForm = true)
    (hkind : rule.kind = .singleLine) : ∃ opener, Opener opener ['/', '/'] ∧
      rule.pattern.expr = .dividing [opener, content true] := by
  simp only [hasSlashStarForm, hkind, Bool.or_eq_true, beq_iff_eq] at hform
  rcases hform with hexpr | hexpr
  · exact ⟨_, opener_padded _, hexpr⟩
  · exact ⟨_, opener_markedSlashes, hexpr⟩

end Rule

namespace RuleSet

variable {set : RuleSet} {line : String} {comment : Comment}

/-- No rule without a closing takes a line when the rules for whole lines and for the middle of
a block find nothing on it. -/
theorem shadowsClosing_eq_false (hforms : ∀ rule ∈ set.rules, rule.hasSlashStarForm = true)
    (hline : '\n' ∉ line.toList)
    (hnone : ∀ rule ∈ set.rules, rule.kind = .singleLine ∨ rule.kind = .blockMiddle →
      rule.extract? line = none)
    {c : Char} (hmem : c ∈ line.toList) (hc : Text.isBlank c = false) (hslash : c ≠ '/')
    (hstar : c ≠ '*') : set.shadowsClosing line = false := by
  rw [shadowsClosing, Bool.or_eq_false_iff, Bool.and_eq_false_imp, Bool.and_eq_false_imp]
  constructor
  · intro hhas
    obtain ⟨rule, hrule, hkind⟩ := has_eq_true_iff.mp hhas
    obtain ⟨opener, hopener, hexpr⟩ := rule.exists_opener_of_singleLine (hforms rule hrule) hkind
    exact rule.opensWith_eq_false_of_extract? hopener hexpr (hnone rule hrule (Or.inl hkind))
      hline hmem hc (by simp [hslash])
  · intro hhas
    obtain ⟨rule, hrule, hkind⟩ := has_eq_true_iff.mp hhas
    have hform := hforms rule hrule
    simp only [Rule.hasSlashStarForm, hkind, beq_iff_eq] at hform
    exact rule.opensWith_eq_false_of_extract? (opener_padded _) hform
      (hnone rule hrule (Or.inr hkind)) hline hmem hc (by simp [hstar])

/-- On a line that closes a block the rule for the start of a block does not decide, as the rule
for blocks on one line comes before it and finds the block. -/
theorem kind_ne_blockStart (hforms : ∀ rule ∈ set.rules, rule.hasSlashStarForm = true)
    (hinline : set.has .blockStart = false ∨ set.has .inlineBlock = true)
    (hline : '\n' ∉ line.toList) (hclose : Text.closesWith line.toList ['*', '/'] = true)
    {rule : Rule} (hrule : rule ∈ set.rules) (hextract : rule.extract? line = some comment)
    (hearlier : ∀ other ∈ set.rules, other.kind.rank < rule.kind.rank →
      other.extract? line = none)
    {c : Char} (hbody : c ∈ comment.body.toList) (hc : Text.isBlank c = false) (hslash : c ≠ '/')
    (hstar : c ≠ '*') : rule.kind ≠ .blockStart := by
  intro hkind
  have hform := hforms rule hrule
  simp only [Rule.hasSlashStarForm, hkind, beq_iff_eq] at hform
  obtain ⟨-, hparts, before, after, heq, hbefore⟩ :=
    rule.exists_eq_of_extract?_open (opener_padded _) hform hextract
  have hmem : c ∈ line.toList := hparts ▸ List.mem_append_right _ hbody
  have hhas : set.has .blockStart = true := has_eq_true_iff.mpr ⟨rule, hrule, hkind⟩
  rw [hhas, Bool.true_eq_false, false_or, has_eq_true_iff] at hinline
  obtain ⟨other, hother, hkind'⟩ := hinline
  have hform' := hforms other hother
  simp only [Rule.hasSlashStarForm, hkind', beq_iff_eq] at hform'
  have hnone := hearlier other hother (by rw [hkind, hkind']; decide)
  exact other.extract?_ne_none_of_closesWith (opener_padded _) hform' hline hclose heq hbefore
    hmem hc (by simp [hslash, hstar]) (by simp [hslash, hstar]) hnone

/-- The closing token goes to the closing of the comment, or the comment has no closing at
all. -/
theorem closing_cases (hset : set.isSlashStar = true) (hline : '\n' ∉ line.toList)
    (hclose : Text.closesWith line.toList ['*', '/'] = true)
    (h : set.extract? line = some comment) (htranslatable : comment.isTranslatable = true) :
    (comment.KeepsClosing ['*', '/'] ∧ set.shadowsClosing line = false) ∨
      (comment.closing = "" ∧ line.toList = comment.opening.toList ++ comment.body.toList ∧
        set.shadowsClosing line = true) := by
  simp only [isSlashStar, Bool.and_eq_true, List.all_eq_true, Bool.or_eq_true,
    Bool.not_eq_true'] at hset
  obtain ⟨⟨hforms, horder⟩, hinline⟩ := hset
  obtain ⟨rule, hrule, hextract, hearlier⟩ := exists_first_rule horder h
  obtain ⟨c, hbody, hc, hslash, hstar⟩ := comment.exists_mem_of_isTranslatable htranslatable
  have hform := hforms rule hrule
  -- Each kind of rule says how its lines open; the rules before it found nothing.
  cases hkind : rule.kind with
  | singleLine =>
      obtain ⟨opener, hopener, hexpr⟩ := rule.exists_opener_of_singleLine hform hkind
      obtain ⟨hclosing, hparts, before, after, heq, hbefore⟩ :=
        rule.exists_eq_of_extract?_open hopener hexpr hextract
      have hopens := Text.opensWith_of_eq heq hbefore (by decide)
      have hhas : set.has .singleLine = true := has_eq_true_iff.mpr ⟨rule, hrule, hkind⟩
      exact Or.inr ⟨hclosing, hparts, by rw [shadowsClosing, hhas, hopens]; rfl⟩
  | inlineBlock =>
      simp only [Rule.hasSlashStarForm, hkind, beq_iff_eq] at hform
      obtain ⟨-, ⟨before, after, heq, hbefore⟩, hkeeps⟩ :=
        rule.exists_eq_of_extract?_closed (opener_padded _) hform hextract
      have hopens (token : List Char) : Text.opensWith line.toList token =
          token.isPrefixOf ('/' :: '*' :: after) := by
        rw [heq, List.append_assoc]
        exact Text.opensWith_append hbefore (by decide) _
      refine Or.inl ⟨hkeeps, ?_⟩
      rw [shadowsClosing, hopens, hopens]
      simp [List.isPrefixOf]
  | blockStart =>
      exact absurd hkind (kind_ne_blockStart hforms hinline hline hclose hrule hextract hearlier
        hbody hc hslash hstar)
  | blockMiddle =>
      simp only [Rule.hasSlashStarForm, hkind, beq_iff_eq] at hform
      obtain ⟨hclosing, hparts, before, after, heq, hbefore⟩ :=
        rule.exists_eq_of_extract?_open (opener_padded _) hform hextract
      have hopens := Text.opensWith_of_eq heq hbefore (by decide)
      have hhas : set.has .blockMiddle = true := has_eq_true_iff.mpr ⟨rule, hrule, hkind⟩
      refine Or.inr ⟨hclosing, hparts, ?_⟩
      rw [shadowsClosing, hhas, hopens, Bool.true_and, Bool.or_true]
  | blockEnd =>
      simp only [Rule.hasSlashStarForm, hkind, beq_iff_eq] at hform
      obtain ⟨hparts, -, hkeeps⟩ := rule.exists_eq_of_extract?_closed opener_blanks hform hextract
      have hmem : c ∈ line.toList :=
        hparts ▸ List.mem_append_left _ (List.mem_append_right _ hbody)
      refine Or.inl ⟨hkeeps, shadowsClosing_eq_false hforms hline ?_ hmem hc hslash hstar⟩
      intro other hother hkind'
      apply hearlier other hother
      rcases hkind' with hkind' | hkind' <;> rw [hkind, hkind'] <;> decide

end RuleSet

/-- Without a closing the line ends with the translation, whatever that is. -/
theorem Comment.not_closesWith_withBody {comment : Comment} (h : comment.closing = "") :
    Text.closesWith (comment.withBody "x").toList ['*', '/'] = false := by
  have hline : (comment.withBody "x").toList = comment.opening.toList ++ ['x'] ++ [] := by
    simp [withBody, h]
  rw [hline, Text.closesWith_append (by decide) (by simp), Bool.eq_false_iff]
  intro hsuffix
  have hlast := (List.isSuffixOf_iff_suffix.mp hsuffix).getLast (by simp)
  simp at hlast

namespace Registry

/-- In a language whose blocks close with a star and a slash, take a line that ends so and has
something to translate. The closing of its comment keeps the token, and every translation of
the line ends with it, exactly when the line does not open with two slashes where these begin a
comment and not with a star where that continues a block. Otherwise the token is part of the
body. -/
theorem keepsClosing_iff_of_builtin {registry : Registry}
    (hbuiltin : Registry.builtin = .ok registry) {line id : String} {comment : Comment}
    (hline : '\n' ∉ line.toList) (hblock : (registry.ruleSet id).blockClose = some "*/")
    (hclose : Text.closesWith line.toList ['*', '/'] = true)
    (hextract : registry.extract? line id = some comment)
    (htext : comment.isTranslatable = true) :
    (comment.KeepsClosing ['*', '/'] ↔ (registry.ruleSet id).shadowsClosing line = false) ∧
    ((∀ text, Text.closesWith (comment.withBody text).toList ['*', '/'] = true) ↔
      (registry.ruleSet id).shadowsClosing line = false) ∧
    ((registry.ruleSet id).shadowsClosing line = true →
      Text.closesWith comment.body.toList ['*', '/'] = true) := by
  have hcheck := check_of_builtin hbuiltin
    (·.everySet fun set => set.blockClose != some "*/" || set.isSlashStar) (by decide +kernel)
  have hset := check_ruleSet hcheck rfl id
  rw [hblock, bne_self_eq_false, Bool.false_or] at hset
  rcases RuleSet.closing_cases hset hline hclose hextract htext with
    ⟨hkeeps, hshadows⟩ | ⟨hclosing, hparts, hshadows⟩
  · rw [hshadows]
    refine ⟨⟨fun _ => rfl, fun _ => hkeeps⟩, ⟨fun _ => rfl, ?_⟩, fun h => by cases h⟩
    exact fun _ => hkeeps.closesWith_withBody
  · rw [hshadows]
    refine ⟨⟨fun hkeeps => ?_, fun h => by cases h⟩, ⟨fun hall => ?_, fun h => by cases h⟩,
      fun _ => ?_⟩
    · obtain ⟨before, after, heq, -⟩ := hkeeps
      simp [hclosing] at heq
    · rw [← hall "x", Comment.not_closesWith_withBody hclosing]
    · obtain ⟨c, hmem, hc, hslash, hstar⟩ := comment.exists_mem_of_isTranslatable htext
      have hsuffix : comment.body.toList <:+ line.toList := ⟨comment.opening.toList, hparts.symm⟩
      obtain ⟨before, after, hbody, -, hafter⟩ := Text.exists_split_of_closesWith hsuffix hclose
        hmem hc (by simp [hslash, hstar])
      exact Text.closesWith_of_eq ['*'] '/' hbody hafter (by decide)

/-- The last line of a block that closes without a star in front. -/
theorem keepsClosing_iff_of_builtin_last_line :
    ∃ registry comment, Registry.builtin = .ok registry ∧
      (registry.ruleSet "typescript").blockClose = some "*/" ∧
      registry.extract? "  the end */ " "typescript" = some comment ∧
      comment.KeepsClosing ['*', '/'] ∧
      ∀ text, Text.closesWith (comment.withBody text).toList ['*', '/'] = true := by
  obtain ⟨registry, hbuiltin, hfound⟩ := exists_builtin
    (fun registry =>
      registry.extract? "  the end */ " "typescript" = some ⟨"  ", "the end", " */ "⟩ ∧
      (registry.ruleSet "typescript").blockClose = some "*/" ∧
      (registry.ruleSet "typescript").shadowsClosing "  the end */ " = false) (by decide +kernel)
  obtain ⟨hextract, hblock, hshadows⟩ := of_decide_eq_true hfound
  obtain ⟨hkeeps, hall, -⟩ := keepsClosing_iff_of_builtin hbuiltin (by decide) hblock (by decide)
    hextract (by decide +kernel)
  exact ⟨registry, _, hbuiltin, hblock, hextract, hkeeps.mpr hshadows, hall.mpr hshadows⟩

/-- The last line of a block that closes with a star in front loses its closing token. -/
theorem exists_not_closesWith_of_builtin_star :
    ∃ registry comment, Registry.builtin = .ok registry ∧ '\n' ∉ " * foo */".toList ∧
      (registry.ruleSet "javascript").blockClose = some "*/" ∧
      Text.closesWith " * foo */".toList ['*', '/'] = true ∧
      registry.extract? " * foo */" "javascript" = some comment ∧
      comment.isTranslatable = true ∧ ¬ comment.KeepsClosing ['*', '/'] ∧
      comment.withBody "bar" = " * bar" := by
  obtain ⟨registry, hbuiltin, hfound⟩ := exists_builtin
    (fun registry => registry.extract? " * foo */" "javascript" = some ⟨" * ", "foo */", ""⟩ ∧
      (registry.ruleSet "javascript").blockClose = some "*/") (by decide +kernel)
  obtain ⟨hextract, hblock⟩ := of_decide_eq_true hfound
  refine ⟨registry, _, hbuiltin, by decide, hblock, by decide, hextract, by decide +kernel, ?_,
    by decide⟩
  rintro ⟨before, after, hclosing, -⟩
  simp at hclosing

end Registry

end Marginalia
