import Marginalia.Proofs.Comment.Stability
import Marginalia.Proofs.Workflow.Report

/-! # Markers of comments

A quick look at a line asks only what the line begins with, ends with or contains between the blanks
at its edges. A rule looks at the line as a whole, but its comments have a token in front or at the
end, and there the blanks around a token are no part of it. So the quick look misses no comment of a
rule set in which every rule has a token with a marker.
-/

namespace Marginalia

open Pattern

namespace Text

variable {text token : List Char}

/-- A token without blanks that opens a text stands in front of the trimmed text. -/
theorem prefix_trimList (htoken : ∀ c ∈ token, isBlank c = false)
    (h : opensWith text token = true) : token <+: trimList text := by
  obtain ⟨rest, hrest⟩ := List.isPrefixOf_iff_prefix.mp h
  obtain ⟨after, htext, hafter⟩ := exists_eq_dropBlanksEnd_append (dropBlanks text)
  rw [← hrest] at htext
  rw [trimList, ← hrest]
  rcases List.append_eq_append_iff.mp htext with ⟨more, hmore, -⟩ | ⟨more, hmore, hblanks⟩
  · exact ⟨more, hmore.symm⟩
  · -- What the token has beyond the trimmed text is blank, so there is nothing of it.
    have hnil : more = [] := by
      apply List.eq_nil_iff_forall_not_mem.mpr
      intro c hc
      have hblank := hafter c (hblanks ▸ List.mem_append_left _ hc)
      rw [htoken c (hmore ▸ List.mem_append_right _ hc)] at hblank
      cases hblank
    rw [hnil, List.append_nil] at hmore
    exact ⟨[], by rw [List.append_nil, ← hmore]⟩

/-- A token without blanks that closes a text stands at the end of the trimmed text. -/
theorem suffix_trimList (htoken : ∀ c ∈ token, isBlank c = false)
    (h : closesWith text token = true) : token <:+ trimList text := by
  rcases List.eq_nil_or_concat token with rfl | ⟨init, last, rfl⟩
  · exact List.nil_suffix
  rw [List.concat_eq_append] at h htoken ⊢
  obtain ⟨before, after, htext, hafter⟩ := exists_eq_of_closesWith h
  -- Dropping the blanks in front stops at the token at the latest.
  have hfront : ∃ front, dropBlanks text = front ++ (init ++ [last]) ++ after := by
    rw [htext, List.append_assoc, dropBlanks, List.dropWhile_append]
    split
    next =>
      have hne : init ++ [last] ≠ [] := by simp
      obtain ⟨c, others, hcons⟩ := List.exists_cons_of_ne_nil hne
      have hc := htoken c (hcons ▸ List.mem_cons_self)
      refine ⟨[], ?_⟩
      rw [hcons, List.cons_append, ← dropBlanks, dropBlanks_of_not_blank _ _ hc]
      rfl
    next => exact ⟨_, (List.append_assoc _ _ _).symm⟩
  obtain ⟨front, hfront⟩ := hfront
  have hlast := htoken last (List.mem_append_right _ List.mem_cons_self)
  rw [trimList, hfront, dropBlanksEnd_append_of_blank _ hafter, ← List.append_assoc,
    dropBlanksEnd_concat _ hlast, List.append_assoc]
  exact List.suffix_append _ _

end Text

namespace Pattern

/-! ## Tokens at the edges of a line -/

namespace Token

theorem not_blank (token : Token) : ∀ c ∈ token.characters, Text.isBlank c = false :=
  fun c hc => Text.isBlank_eq_false_of_isMark (List.all_eq_true.mp token.marks c hc)

end Token

namespace Form

variable {form : Form} {line : List Char} {comment : Comment}

theorem Splits.start_prefix (h : form.Splits line comment) :
    form.front.start <+: Text.trimList line := by
  apply Text.prefix_trimList
  · intro c hc
    exact Text.isBlank_eq_false_of_isMark (List.all_eq_true.mp form.front.start_marks c hc)
  · rw [Text.opensWith, List.isPrefixOf_iff_prefix]
    by_cases hstart : form.front.start = []
    · rw [hstart]
      exact List.nil_prefix
    · exact h.begins_with_start hstart

theorem Splits.finish_suffix (h : form.Splits line comment) {closer : Token}
    (hfinish : form.finish = some closer) : closer.characters <:+ Text.trimList line := by
  apply Text.suffix_trimList closer.not_blank
  have hline := h.line_eq
  simp only [Splits, hfinish] at h
  obtain ⟨before, after, hclosing, -, hafter⟩ := h.closing_texts
  rw [hclosing, List.append_assoc before, ← List.append_assoc, ← List.append_assoc,
    ← List.append_assoc] at hline
  have hlast := closer.not_blank _ (List.getLast_mem closer.ne_nil)
  rw [← List.dropLast_concat_getLast closer.ne_nil] at hline ⊢
  exact Text.closesWith_of_eq _ _ hline hafter hlast

/-- Whether one of the markers begins the token that opens comments of the form, or one is part of
the token that closes them, or ends it. -/
def isMarked (form : Form) (heads parts tails : List String) : Bool :=
  heads.any (·.toList.isPrefixOf form.front.start) ||
    form.finish.any fun closer =>
      parts.any (Text.occursIn ·.toList closer.characters) ||
        tails.any (·.toList.isSuffixOf closer.characters)

end Form

end Pattern

namespace Registry

variable {registry : Registry} {line id : String} {comment : Comment}

theorem looksLikeComment_eq_true_iff :
    registry.looksLikeComment line id = true ↔
      (∃ marker ∈ registry.commonMarkers, marker.toList <+: Text.trimList line.toList) ∨
      (∃ part ∈ registry.commonContains, part.toList <:+: Text.trimList line.toList) ∨
      (∃ marker ∈ (registry.ruleSet id).lineMarkers,
        marker.toList <+: Text.trimList line.toList) ∨
      ∃ tail ∈ (registry.ruleSet id).trailingMarkers,
        tail.toList <:+ Text.trimList line.toList := by
  simp only [looksLikeComment, Bool.or_eq_true, List.any_eq_true, Text.startsWith, Text.contains,
    Text.endsWith, Text.trim, String.toList_ofList, List.isPrefixOf_iff_prefix,
    List.isSuffixOf_iff_suffix, Text.occursIn_iff_infix, or_assoc]

/-- Whether every rule of the set has a known form with a marker of the registry or of the set. -/
def marks (registry : Registry) (set : RuleSet) : Bool :=
  set.rules.all fun rule => rule.form?.any
    (·.isMarked (registry.commonMarkers ++ set.lineMarkers) registry.commonContains
      set.trailingMarkers)

/-- Where all rules are marked a line with a comment looks like one. -/
theorem looksLikeComment_of_marks (hmarks : registry.marks (registry.ruleSet id) = true)
    (h : registry.extract? line id = some comment) :
    registry.looksLikeComment line id = true := by
  obtain ⟨rule, hrule, hextract⟩ := RuleSet.exists_rule_of_extract? h
  obtain ⟨form, hform, hmarked⟩ :=
    (Option.any_eq_true _ _).mp (List.all_eq_true.mp hmarks rule hrule)
  have hsplits := (rule.extract?_eq_some_iff_splits hform).mp hextract
  rw [looksLikeComment_eq_true_iff]
  simp only [Form.isMarked, Bool.or_eq_true, List.any_eq_true, Option.any_eq_true,
    List.isPrefixOf_iff_prefix, List.isSuffixOf_iff_suffix, Text.occursIn_iff_infix] at hmarked
  rcases hmarked with ⟨marker, hmem, hmarker⟩ | ⟨closer, hcloser, hparts | htails⟩
  · have hfront := hmarker.trans hsplits.start_prefix
    rcases List.mem_append.mp hmem with hmem | hmem
    · exact Or.inl ⟨marker, hmem, hfront⟩
    · exact Or.inr (Or.inr (Or.inl ⟨marker, hmem, hfront⟩))
  · obtain ⟨part, hmem, hpart⟩ := hparts
    exact Or.inr (Or.inl ⟨part, hmem, hpart.trans (hsplits.finish_suffix hcloser).isInfix⟩)
  · obtain ⟨tail, hmem, htail⟩ := htails
    exact Or.inr (Or.inr (Or.inr ⟨tail, hmem, htail.trans (hsplits.finish_suffix hcloser)⟩))

/-- With the languages that are known from the start every line with a comment looks like one, in
every language, registered or not; and so do the lines of all comments that a document has to
translate. -/
theorem looksLikeComment_of_builtin_extract? :
    ∃ registry, Registry.builtin = .ok registry ∧
      (∀ (line id : String) (comment : Comment), registry.extract? line id = some comment →
        registry.looksLikeComment line id = true) ∧
      ∀ (lines : List String) (id : String), ∀ entry ∈ registry.comments lines id,
        ∃ line, lines[entry.1]? = some line ∧ registry.looksLikeComment line id = true := by
  obtain ⟨registry, hbuiltin, hcheck⟩ := exists_builtin
    (fun registry => registry.everySet registry.marks) (by decide +kernel)
  have hfound (line id : String) (comment : Comment)
      (h : registry.extract? line id = some comment) :
      registry.looksLikeComment line id = true :=
    looksLikeComment_of_marks (check_ruleSet hcheck rfl id) h
  refine ⟨registry, hbuiltin, hfound, ?_⟩
  intro lines id entry hmem
  obtain ⟨line, hline, hextract, -⟩ := mem_comments.mp hmem
  exact ⟨line, hline, hfound line id entry.2 hextract⟩

/-- A line that is kept by its closing token alone, and a comment of an unknown language. -/
theorem looksLikeComment_of_builtin_extract?_closing :
    ∃ registry, Registry.builtin = .ok registry ∧
      registry.extract? "\u0085 */" "scss" = some ⟨"\u0085", " ", "*/"⟩ ∧
      registry.looksLikeComment "\u0085 */" "scss" = true ∧
      registry.comments ["x", "é */"] "unknown" = [(1, ⟨"", "é", " */"⟩)] ∧
      ∃ line, ["x", "é */"][1]? = some line ∧
        registry.looksLikeComment line "unknown" = true := by
  obtain ⟨registry, hbuiltin, hfound, hlisted⟩ := looksLikeComment_of_builtin_extract?
  have hcheck := check_of_builtin hbuiltin
    (fun registry => registry.extract? "\u0085 */" "scss" = some ⟨"\u0085", " ", "*/"⟩ ∧
      registry.comments ["x", "é */"] "unknown" = [(1, ⟨"", "é", " */"⟩)]) (by decide +kernel)
  obtain ⟨hextract, hcomments⟩ := of_decide_eq_true hcheck
  refine ⟨registry, hbuiltin, hextract, hfound _ _ _ hextract, hcomments, ?_⟩
  exact hlisted ["x", "é */"] "unknown" (1, ⟨"", "é", " */"⟩) (by simp [hcomments])

-- The quick look is the looser one.
example : Registry.builtin.toOption.map (fun registry =>
    (registry.looksLikeComment "//" "c", registry.extract? "//" "c")) = some (true, none) := by
  decide +kernel

end Registry

end Marginalia
