import Marginalia.Comment
import Marginalia.Language.Builtin
import Marginalia.Pattern.Parser
import Marginalia.Proofs.Pattern.Division

/-! # Comments cover their lines

A rule whose groups stand one after the other between the ends of the line takes the whole line
apart, so opening, body and closing of its comments make up the line again. All rules that are
known from the start are of this kind.
-/

namespace Marginalia

open Pattern

namespace Rule

variable {rule : Rule} {line : String} {comment : Comment}

/-- The parts of a comment are texts of the groups of its rule and make up the line. -/
theorem exists_texts_of_extract? {bodies : List Expr}
    (hexpr : rule.pattern.expr = .dividing bodies)
    (hfree : ∀ body ∈ bodies, body.groupCount = 0) (h : rule.extract? line = some comment) :
    ∃ texts, List.Forall₂ (fun body text => Lead.Takes body.leads text) bodies texts ∧
      line.toList = texts.flatten ∧ comment.opening.toList = texts.getD 0 [] ∧
      comment.body.toList = texts.getD 1 [] ∧ comment.closing.toList = texts.getD 2 [] := by
  obtain ⟨group, hgroup, rfl⟩ := Option.map_eq_some_iff.mp h
  obtain ⟨texts, htexts, hline, hindex⟩ := exists_texts_of_captures? hexpr hfree hgroup
  refine ⟨texts, htexts, hline, ?_⟩
  simp only [String.toList_ofList]
  exact ⟨hindex 0, hindex 1, hindex 2⟩

theorem isSome_extract? {bodies : List Expr} (hexpr : rule.pattern.expr = .dividing bodies)
    {texts : List (List Char)}
    (hspell : List.Forall₂
      (fun body text => ∃ spelled, Lead.Spells body.leads spelled ∧ spelled text) bodies texts)
    (hline : line.toList = texts.flatten) : (rule.extract? line).isSome = true := by
  rw [extract?, Option.isSome_map]
  exact isSome_captures? hexpr hspell hline

/-- A comment with its own body in the place of its body is its line. -/
theorem withBody_of_extract? (hrule : rule.pattern.expr.dividesLine 3 = true)
    (h : rule.extract? line = some comment) : comment.withBody comment.body = line := by
  simp only [Expr.dividesLine, Bool.and_eq_true, beq_iff_eq, List.all_eq_true,
    decide_eq_true_eq] at hrule
  obtain ⟨⟨hexpr, hfree⟩, hlength⟩ := hrule
  obtain ⟨texts, htexts, hline, hopening, hbody, hclosing⟩ :=
    exists_texts_of_extract? hexpr hfree h
  rw [htexts.length_eq] at hlength
  apply String.toList_injective
  rw [Comment.withBody, String.toList_append, String.toList_append, hline, hopening, hbody,
    hclosing]
  match texts, hlength with
  | [], _ => rfl
  | [_], _ => simp
  | [_, _], _ => simp
  | [_, _, _], _ => simp

end Rule

theorem RuleSet.exists_rule_of_extract? {set : RuleSet} {line : String} {comment : Comment}
    (h : set.extract? line = some comment) :
    ∃ rule ∈ set.rules, rule.extract? line = some comment := by
  obtain ⟨rule, hmem, hrule⟩ := List.exists_of_findSome?_eq_some h
  exact ⟨rule, List.mem_of_mem_filter hmem, hrule⟩

namespace Registry

/-- Whether all registered rule sets pass a check. -/
def everySet (registry : Registry) (check : RuleSet → Bool) : Bool :=
  registry.sets.all fun entry => check entry.2

/-- Lines are judged by a registered rule set or by the empty one. -/
theorem check_ruleSet {registry : Registry} {check : RuleSet → Bool}
    (h : registry.everySet check = true) (hempty : check { } = true) (id : String) :
    check (registry.ruleSet id) = true := by
  have hfind (id : String) (set : RuleSet) (hset : registry.find? id = some set) :
      check set = true := by
    obtain ⟨before, after, hsets, -⟩ := List.lookup_eq_some_iff.mp hset
    exact List.all_eq_true.mp h (id, set) (by simp [hsets])
  unfold ruleSet
  cases hset : (registry.find? id).or (registry.find? registry.fallback) with
  | none => exact hempty
  | some set =>
      rcases Option.or_eq_some_iff.mp hset with hset | ⟨-, hset⟩
      · exact hfind _ set hset
      · exact hfind _ set hset

/-- What is checked of the registry that is known from the start holds of it. -/
theorem check_of_builtin {registry : Registry} (hbuiltin : Registry.builtin = .ok registry)
    (check : Registry → Bool) (h : Registry.builtin.toOption.any check = true) :
    check registry = true := by
  rw [hbuiltin] at h
  exact h

theorem exists_builtin (check : Registry → Bool)
    (h : Registry.builtin.toOption.any check = true) :
    ∃ registry, Registry.builtin = .ok registry ∧ check registry = true := by
  cases hbuiltin : Registry.builtin with
  | error failure =>
      rw [hbuiltin] at h
      cases h
  | ok registry => exact ⟨registry, rfl, check_of_builtin hbuiltin check h⟩

/-- For every line and every language, registered or not, the comment that is found with its
own body in the place of its body is the line. -/
theorem withBody_of_builtin_extract? :
    ∃ registry, Registry.builtin = .ok registry ∧
      ∀ (line id : String) (comment : Comment), registry.extract? line id = some comment →
        comment.withBody comment.body = line := by
  obtain ⟨registry, hbuiltin, hcheck⟩ := exists_builtin
    (·.everySet fun set => set.rules.all (·.pattern.expr.dividesLine 3)) (by decide +kernel)
  refine ⟨registry, hbuiltin, fun line id comment h => ?_⟩
  have hset := check_ruleSet hcheck rfl id
  obtain ⟨rule, hmem, hrule⟩ := RuleSet.exists_rule_of_extract? h
  exact Rule.withBody_of_extract? (List.all_eq_true.mp hset rule hmem) hrule

/-- A line of an unknown language with a token inside the body and blanks of two kinds. -/
theorem withBody_of_builtin_extract?_nested :
    ∃ registry comment, Registry.builtin = .ok registry ∧
      registry.extract? "\u00a0/**/* x*/ \t" "unknown" = some comment ∧
      comment.withBody comment.body = "\u00a0/**/* x*/ \t" := by
  obtain ⟨registry, hbuiltin, hcover⟩ := withBody_of_builtin_extract?
  have hextract : (Registry.builtin.toOption.bind (·.extract? "\u00a0/**/* x*/ \t" "unknown")) =
      some ⟨"\u00a0/*", "*/* x", "*/ \t"⟩ := by decide +kernel
  rw [hbuiltin] at hextract
  exact ⟨registry, _, hbuiltin, hextract, hcover _ _ _ hextract⟩

end Registry

end Marginalia
