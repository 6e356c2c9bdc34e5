import Marginalia.Proofs.Comment.Stability
import Marginalia.Proofs.Session.Yields
import Marginalia.Proofs.Workflow.Cancellation
import Mathlib.Data.List.Sort

/-! # Translating a document again

With a provider whose translations are phrases, the comments of a translated document are those of
the document before, each with the translation of its body where there is one: the same lines, the
same openings and the same closings. So the document can be translated again and again, and its
delimiters stay where they are.
-/

namespace Marginalia

/-- The comment with its translation as its body, or as it was when there is none. -/
def Comment.translated (comment : Comment) : Option (Except Failure Translation) → Comment
  | some (.ok translation) => { comment with body := translation.text }
  | _ => comment

/-- The line of the comment with its translation, when there is one. -/
def Comment.rewritten? (comment : Comment) : Option (Except Failure Translation) → Option String
  | some (.ok translation) => some (comment.withBody translation.text)
  | _ => none

namespace Workflow

variable {σ : Type}

/-- What came of the comments of a document that were handled. -/
def outcomes (workflow : Workflow σ) (lines : List String) (language : String) :
    List (Except Failure Translation) :=
  (workflow.session.run (workflow.requests lines language)).outcomes

/-- The lines of a document with the edits of its translation made. -/
def translatedLines (workflow : Workflow σ) (lines : List String) (language : String) :
    List String :=
  Edit.applyAll (workflow.translateDocument lines language).1.edits lines

/-! ## Edits and outcomes -/

section

variable {lines : List String} {comments : List (Nat × Comment)}
  {outcomes : List (Except Failure Translation)}

/-- The line of a comment becomes what its own outcome makes of it. -/
theorem textAt?_reportOn (h : comments.Pairwise fun first second => first.1 < second.1)
    {place line : Nat} {comment : Comment} (hplace : comments[place]? = some (line, comment)) :
    Edit.textAt? (reportOn lines comments outcomes).edits line =
      comment.rewritten? outcomes[place]? := by
  cases htext : Edit.textAt? (reportOn lines comments outcomes).edits line with
  | some after =>
      obtain ⟨edit, hmem, rfl, rfl⟩ := Edit.exists_mem_of_textAt? htext
      obtain ⟨other, comment', translation, hother, houtcome, -, hafter⟩ :=
        mem_edits_reportOn_iff.mp hmem
      obtain rfl := place_unique h hplace hother
      obtain ⟨-, rfl⟩ := Prod.mk.inj (Option.some.inj (hplace.symm.trans hother))
      rw [houtcome, hafter, Comment.rewritten?]
  | none =>
      match houtcome : outcomes[place]? with
      | none => rfl
      | some (.error _) => rfl
      | some (.ok translation) =>
          have hmem : ⟨line, lines[line]?.getD "", comment.withBody translation.text⟩ ∈
              (reportOn lines comments outcomes).edits :=
            mem_edits_reportOn_iff.mpr ⟨place, comment, translation, hplace, houtcome, rfl, rfl⟩
          have hsome := Edit.textAt?_of_mem hmem ((pairwise_reportOn h).imp Nat.ne_of_lt)
          rw [htext] at hsome
          cases hsome

/-- Where there is no comment the line stays. -/
theorem textAt?_reportOn_of_not_mem {line : Nat} (h : line ∉ comments.map Prod.fst) :
    Edit.textAt? (reportOn lines comments outcomes).edits line = none := by
  refine Edit.textAt?_eq_none fun edit hmem heq => h ?_
  obtain ⟨place, comment, translation, hplace, -⟩ := mem_edits_reportOn_iff.mp hmem
  exact heq ▸ List.mem_map_of_mem (List.mem_iff_getElem?.mpr ⟨place, hplace⟩)

end

/-! ## The new comments -/

variable {workflow : Workflow σ} {lines : List String} {language : String}

theorem getElem?_translatedLines (index : Nat) :
    (workflow.translatedLines lines language)[index]? = lines[index]?.map fun line =>
      (Edit.textAt? (workflow.translateDocument lines language).1.edits index).getD line := by
  have hlines := (workflow.pairwise_translateDocument lines language).imp Nat.ne_of_lt
  rw [translatedLines, Edit.applyAll_eq_mapIdx hlines, List.getElem?_mapIdx]

theorem isTranslatable_of_isPhrase {comment : Comment}
    (h : Text.isPhrase comment.body.toList = true) : comment.isTranslatable = true := by
  obtain ⟨c, rest, hbody, hc⟩ := Text.exists_cons_of_isPhrase h
  rw [Comment.isTranslatable, hbody, List.any_cons, hc, Bool.true_or]

/-- The line of a comment has the comment again, with its translation where there is one. -/
theorem extract?_rewritten (hbuiltin : Registry.builtin = .ok workflow.registry) {line : String}
    {comment : Comment} (hextract : workflow.registry.extract? line language = some comment)
    (htranslatable : comment.isTranslatable = true) {outcome : Option (Except Failure Translation)}
    (hphrase : ∀ translation, outcome = some (.ok translation) →
      Text.isPhrase translation.text.toList = true) :
    workflow.registry.extract? ((comment.rewritten? outcome).getD line) language =
        some (comment.translated outcome) ∧
      (comment.translated outcome).isTranslatable = true := by
  match outcome, hphrase with
  | some (.ok translation), hphrase =>
      have htext := hphrase translation rfl
      exact ⟨Registry.extract?_withBody_of_builtin hbuiltin hextract htext,
        isTranslatable_of_isPhrase htext⟩
  | some (.error _), _ => exact ⟨hextract, htranslatable⟩
  | none, _ => exact ⟨hextract, htranslatable⟩

/-- Whether every translation that was used is a phrase. -/
def UsesPhrases (workflow : Workflow σ) (lines : List String) (language : String) : Prop :=
  ∀ translation, .ok translation ∈ workflow.outcomes lines language →
    Text.isPhrase translation.text.toList = true

theorem usesPhrases_of_yields
    (hyields : workflow.session.Yields workflow.options fun translation =>
      Text.isPhrase translation.text.toList = true)
    (hcache : workflow.session.cache.HasOnly fun translation =>
      Text.isPhrase translation.text.toList = true) : workflow.UsesPhrases lines language := by
  intro translation hmem
  refine hyields.of_mem_outcomes hcache (fun request hrequest => ?_) hmem
  obtain ⟨entry, -, rfl⟩ := List.mem_map.mp hrequest
  rfl

/-- On the line of a comment stands the comment with its translation. -/
theorem exists_line_of_place (hbuiltin : Registry.builtin = .ok workflow.registry)
    (hphrases : workflow.UsesPhrases lines language) {place line : Nat} {comment : Comment}
    (hplace : (workflow.registry.comments lines language)[place]? = some (line, comment)) :
    ∃ text, (workflow.translatedLines lines language)[line]? = some text ∧
      workflow.registry.extract? text language =
        some (comment.translated (workflow.outcomes lines language)[place]?) ∧
      (comment.translated (workflow.outcomes lines language)[place]?).isTranslatable = true := by
  obtain ⟨old, hold, hextract, htranslatable⟩ :=
    Registry.mem_comments.mp (List.mem_iff_getElem?.mpr ⟨place, hplace⟩)
  have htext : Edit.textAt? (workflow.translateDocument lines language).1.edits line =
      comment.rewritten? (workflow.outcomes lines language)[place]? :=
    textAt?_reportOn Registry.pairwise_comments hplace
  obtain ⟨hnew, hnew'⟩ := extract?_rewritten hbuiltin hextract htranslatable
    fun translation houtcome => hphrases translation (List.mem_iff_getElem?.mpr ⟨place, houtcome⟩)
  refine ⟨_, ?_, hnew, hnew'⟩
  rw [getElem?_translatedLines, hold, Option.map_some, htext]

/-- The comments of the translated document are the old ones with their translations. -/
theorem comments_translatedLines (hbuiltin : Registry.builtin = .ok workflow.registry)
    (hphrases : workflow.UsesPhrases lines language) :
    workflow.registry.comments (workflow.translatedLines lines language) language =
      (workflow.registry.comments lines language).mapIdx fun place entry =>
        (entry.1, entry.2.translated (workflow.outcomes lines language)[place]?) := by
  -- Both lists are in the order of their lines, so it is enough that they have the same members.
  let earlier (first second : Nat × Comment) : Prop := first.1 < second.1
  have hirrefl : Std.Irrefl earlier := ⟨fun entry => Nat.lt_irrefl entry.1⟩
  have hantisymm : Std.Antisymm earlier :=
    ⟨fun first second h h' => absurd h' (Nat.lt_asymm h)⟩
  have hold : (workflow.registry.comments lines language).Pairwise earlier :=
    Registry.pairwise_comments
  refine List.Pairwise.eq_of_mem_iff (r := earlier) Registry.pairwise_comments ?_ ?_
  · rw [List.pairwise_iff_getElem] at hold ⊢
    intro i j hi hj hlt
    rw [List.length_mapIdx] at hi hj
    simpa using hold i j hi hj hlt
  · rintro ⟨index, found⟩
    rw [Registry.mem_comments, List.mem_iff_getElem?]
    constructor
    · rintro ⟨text, htext, hextract, htranslatable⟩
      by_cases hmem : index ∈ (workflow.registry.comments lines language).map Prod.fst
      · obtain ⟨⟨line, comment⟩, hcomment, rfl⟩ := List.mem_map.mp hmem
        obtain ⟨place, hplace⟩ := List.mem_iff_getElem?.mp hcomment
        obtain ⟨text', htext', hextract', -⟩ := exists_line_of_place hbuiltin hphrases hplace
        obtain rfl := Option.some.inj (htext.symm.trans htext')
        obtain rfl := Option.some.inj (hextract.symm.trans hextract')
        exact ⟨place, by rw [List.getElem?_mapIdx, hplace, Option.map_some]⟩
      · -- The line is not edited, and had no comment.
        have hnone : Edit.textAt? (workflow.translateDocument lines language).1.edits index =
          none := textAt?_reportOn_of_not_mem hmem
        rw [getElem?_translatedLines, hnone, Option.map_eq_some_iff] at htext
        obtain ⟨old, hold, rfl⟩ := htext
        have hcomment := Registry.mem_comments.mpr ⟨old, hold, hextract, htranslatable⟩
        exact absurd (List.mem_map_of_mem hcomment) hmem
    · rintro ⟨place, hplace⟩
      rw [List.getElem?_mapIdx, Option.map_eq_some_iff] at hplace
      obtain ⟨⟨line, comment⟩, hplace, heq⟩ := hplace
      obtain ⟨rfl, rfl⟩ := Prod.mk.inj heq
      exact exists_line_of_place hbuiltin hphrases hplace

/-- What translating a document again finds: the comments of the document before with their
translations, at the same lines. -/
structure Retranslates (workflow : Workflow σ) (lines : List String) (language : String) :
    Prop where
  comments_eq : workflow.registry.comments (workflow.translatedLines lines language) language =
    (workflow.registry.comments lines language).mapIdx fun place entry =>
      (entry.1, entry.2.translated (workflow.outcomes lines language)[place]?)
  lines_eq :
    (workflow.registry.comments (workflow.translatedLines lines language) language).map Prod.fst =
      (workflow.registry.comments lines language).map Prod.fst
  edited : ∀ edit ∈ (workflow.translateDocument lines language).1.edits,
    ∃ (comment : Comment) (translation : Translation),
      .ok translation ∈ workflow.outcomes lines language ∧
      lines[edit.line]? = some edit.before ∧
      workflow.registry.extract? edit.before language = some comment ∧
      edit.after = comment.withBody translation.text ∧
      (workflow.translatedLines lines language)[edit.line]? = some edit.after ∧
      workflow.registry.extract? edit.after language =
        some { comment with body := translation.text }
  unedited : ∀ index, (∀ edit ∈ (workflow.translateDocument lines language).1.edits,
      edit.line ≠ index) →
    (workflow.translatedLines lines language)[index]? = lines[index]?

/-- With the languages that are known from the start, a provider whose translations are phrases
and a cache that has only phrases, if any, every document can be translated again: whatever fails
and whenever the session is cancelled, its comments stand on the same lines between the same
delimiters. -/
theorem retranslates_of_builtin (hbuiltin : Registry.builtin = .ok workflow.registry)
    (hyields : workflow.session.Yields workflow.options fun translation =>
      Text.isPhrase translation.text.toList = true)
    (hcache : workflow.session.cache.HasOnly fun translation =>
      Text.isPhrase translation.text.toList = true)
    (lines : List String) (language : String) : workflow.Retranslates lines language := by
  have hphrases : workflow.UsesPhrases lines language := usesPhrases_of_yields hyields hcache
  have hcomments := comments_translatedLines hbuiltin hphrases
  refine ⟨hcomments, ?_, fun edit hmem => ?_, fun index hnone => ?_⟩
  · rw [hcomments]
    apply List.ext_getElem?
    intro place
    rw [List.getElem?_map, List.getElem?_mapIdx, List.getElem?_map, Option.map_map]
    rfl
  · obtain ⟨place, comment, translation, hplace, houtcome, -, hafter⟩ :=
      mem_edits_reportOn_iff.mp hmem
    have hused : .ok translation ∈ workflow.outcomes lines language :=
      List.mem_iff_getElem?.mpr ⟨place, houtcome⟩
    have hbefore := workflow.before_of_mem_translateDocument lines language hmem
    obtain ⟨old, hold, hextract, -⟩ :=
      Registry.mem_comments.mp (List.mem_iff_getElem?.mpr ⟨place, hplace⟩)
    obtain rfl := Option.some.inj (hbefore.symm.trans hold)
    refine ⟨comment, translation, hused, hbefore, hextract, hafter, ?_, ?_⟩
    · have hlines := (workflow.pairwise_translateDocument lines language).imp Nat.ne_of_lt
      rw [getElem?_translatedLines, hbefore, Edit.textAt?_of_mem hmem hlines]
      rfl
    · rw [hafter]
      exact Registry.extract?_withBody_of_builtin hbuiltin hextract (hphrases translation hused)
  · rw [getElem?_translatedLines, Edit.textAt?_eq_none hnone]
    simp

/-- A provider that fails on one text and has tokens of comments in every other translation. -/
def tokenizing (registry : Registry) : Workflow Unit where
  registry := registry
  session := {
    translators := [(.google, fun request state =>
      ⟨if request.text = "b" then .error (.transport .google .noAnswer)
        else .ok ⟨"x */ // /* y", none, "en"⟩, false, state⟩)]
    pause := fun state => (false, state)
    delay := 0
    cache := { capacity := 1 }
    state := () }
  history := { capacity := 0 }
  options := { }

/-- Tokens inside the translations move no delimiter. -/
theorem retranslates_of_builtin_tokens :
    ∃ registry, Registry.builtin = .ok registry ∧
      (tokenizing registry).translatedLines ["/*! a", "f(); // b", "  * c", "/* b */ ", "d */"]
          "rust" =
        ["/*x */ // /* y", "f(); // b", "  * x */ // /* y", "/* b */ ", "x */ // /* y */"] ∧
      (tokenizing registry).Retranslates ["/*! a", "f(); // b", "  * c", "/* b */ ", "d */"]
        "rust" := by
  obtain ⟨registry, hbuiltin, hlines⟩ := Registry.exists_builtin
    (fun registry => (tokenizing registry).translatedLines
      ["/*! a", "f(); // b", "  * c", "/* b */ ", "d */"] "rust" =
        ["/*x */ // /* y", "f(); // b", "  * x */ // /* y", "/* b */ ", "x */ // /* y */"])
    (by decide +kernel)
  have hyields : (tokenizing registry).session.Yields (tokenizing registry).options
      fun translation => Text.isPhrase translation.text.toList = true := by
    intro request hoptions state translation hconsult
    have hprovider : request.options.provider = .google := congrArg Options.provider hoptions
    simp only [Session.consult, Session.translator?, tokenizing, hprovider, List.lookup_cons_self]
      at hconsult
    split at hconsult
    · cases hconsult
    · obtain rfl := Except.ok.inj hconsult
      decide +kernel
  have hcache : (tokenizing registry).session.cache.HasOnly fun translation =>
      Text.isPhrase translation.text.toList = true := by
    simp [Cache.HasOnly, tokenizing]
  exact ⟨registry, hbuiltin, of_decide_eq_true hlines,
    retranslates_of_builtin hbuiltin hyields hcache _ _⟩

end Workflow

end Marginalia
