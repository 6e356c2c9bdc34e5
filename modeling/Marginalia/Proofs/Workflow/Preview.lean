import Marginalia.Proofs.Cache.Window
import Marginalia.Proofs.Comment.Cover
import Marginalia.Proofs.Session.Turns
import Marginalia.Proofs.Workflow.Accounting

/-! # What a preview shows is what is applied

A preview leaves its translation in the cache, even in one that is full, as the last translation
that went in. A document that is translated next takes it from there for its first comment, if that
is the comment of the preview: nobody is asked for it, and the edit is what was shown, whatever a
translator would say by then. A preview that shows nothing leaves nothing behind.
-/

namespace Marginalia

namespace Session

variable {σ : Type} {session after : Session σ} {request : Request} {translation : Translation}
  {failure : Failure}

/-- What was translated is in the cache, when there is room for anything. -/
theorem find?_of_translate_ok (hcapacity : session.cache.capacity ≠ 0)
    (h : session.translate request = (.ok translation, after)) :
    after.cache.find? request.key = some translation := by
  rcases translate_cases session request with
    ⟨found, hfind, heq⟩ | ⟨-, translator, -, heq⟩ | ⟨-, -, heq⟩
  · rw [heq] at h
    cases h
    exact hfind
  · rw [heq] at h
    obtain ⟨houtcome, rfl⟩ := Prod.mk.inj h
    dsimp only [ask] at houtcome ⊢
    rw [houtcome]
    exact Cache.find?_set_self hcapacity
  · rw [heq] at h
    cases h

theorem cache_of_translate_error (h : session.translate request = (.error failure, after)) :
    after.cache = session.cache := by
  rcases translate_cases session request with
    ⟨found, -, heq⟩ | ⟨-, translator, -, heq⟩ | ⟨-, -, heq⟩
  · rw [heq] at h
    cases h
  · rw [heq] at h
    obtain ⟨houtcome, rfl⟩ := Prod.mk.inj h
    dsimp only [ask] at houtcome ⊢
    rw [houtcome]
  · rw [heq] at h
    cases h
    rfl

/-- A request that the cache answers makes no difference to those after it. -/
theorem runFrom_cons_of_find? (pacer : Pacer) (requests : List Request)
    (hcancelled : session.cancelled = false)
    (hfind : session.cache.find? request.key = some translation) :
    session.runFrom pacer (request :: requests) =
      { session.runFrom pacer requests with
        outcomes := .ok translation :: (session.runFrom pacer requests).outcomes } :=
  runFrom_cons_of_some (translatePaced_of_find? hcancelled hfind)

end Session

namespace Workflow

variable {σ τ : Type} {workflow : Workflow σ} {now : Workflow τ} {line language : String}
  {shown : Preview}

/-- Whether a workflow goes on from another one: it has its languages, its options and what is in
its cache, and is not cancelled. Its translators may be others. -/
structure GoesOnFrom (now : Workflow τ) (after : Workflow σ) : Prop where
  registry_eq : now.registry = after.registry
  options_eq : now.options = after.options
  cache_eq : now.session.cache = after.session.cache
  not_cancelled : now.session.cancelled = false

/-- Whether a workflow makes of the first comment of a document, on the line with the index, what a
preview shows of it. -/
structure Applies (now : Workflow τ) (lines : List String) (language : String) (index : Nat)
    (line : String) (shown : Preview) : Prop where
  first_edit : (now.translateDocument lines language).1.edits.head? =
    some ⟨index, line, shown.comment.withBody shown.translation.text⟩
  /-- The comment is translated without a call, and nothing happens in the session. -/
  translatePaced_eq : now.session.translatePaced { } (now.options.request shown.comment.body) =
    (some (.ok shown.translation), { }, now.session)
  /-- All that happens is for the comments behind it. -/
  session_eq : (now.translateDocument lines language).2.session =
    (now.session.run (now.requests lines language).tail).session

/-! ## What a preview leaves -/

/-- A preview finds no comment, or it shows the translation of the one that it finds, or the
translation fails. Only the session is another one afterwards. -/
theorem preview_cases (workflow : Workflow σ) (line language : String) :
    workflow.preview line language = (none, workflow) ∨
    (∃ shown session, workflow.registry.extract? line language = some shown.comment ∧
      workflow.session.translate (workflow.options.request shown.comment.body) =
        (.ok shown.translation, session) ∧
      workflow.preview line language = (some shown, { workflow with session })) ∨
    ∃ session, session.cache = workflow.session.cache ∧
      workflow.preview line language = (none, { workflow with session }) := by
  cases hextract : workflow.registry.extract? line language with
  | none => exact Or.inl (by simp only [preview, hextract])
  | some comment =>
      right
      rcases htranslate : workflow.session.translate (workflow.options.request comment.body) with
        ⟨failure | translation, session⟩
      · exact Or.inr ⟨session, Session.cache_of_translate_error htranslate,
          by simp only [preview, hextract, htranslate]⟩
      · exact Or.inl ⟨⟨comment, translation⟩, session, rfl, htranslate,
          by simp only [preview, hextract, htranslate]⟩

/-- What is shown is the comment of the line with its translation, when there is one. -/
theorem preview_eq_some_iff : (workflow.preview line language).1 = some shown ↔
    workflow.registry.extract? line language = some shown.comment ∧
      (workflow.session.translate (workflow.options.request shown.comment.body)).1 =
        .ok shown.translation := by
  unfold preview
  cases workflow.registry.extract? line language with
  | none => simp
  | some comment =>
      obtain ⟨found, translation⟩ := shown
      dsimp only
      by_cases hfound : comment = found
      · subst hfound
        cases (workflow.session.translate (workflow.options.request comment.body)).1 <;> simp
      · cases (workflow.session.translate (workflow.options.request comment.body)).1 <;>
          simp [hfound]

/-! ## What a translation finds -/

/-- A document whose first comment has its translation in the cache begins with its edit. -/
theorem applies_of_find? {lines : List String} {index : Nat} (hline : lines[index]? = some line)
    (hfirst : (now.registry.comments lines language).head? = some (index, shown.comment))
    (hcancelled : now.session.cancelled = false)
    (hfind : now.session.cache.find? (now.options.request shown.comment.body).key =
      some shown.translation) :
    now.Applies lines language index line shown := by
  obtain ⟨comments, hcomments⟩ := List.head?_eq_some_iff.mp hfirst
  have hrun := Session.runFrom_cons_of_find? { }
    (comments.map fun comment => now.options.request comment.2.body) hcancelled hfind
  constructor
  case first_edit =>
    simp only [translateDocument, Session.run, hcomments, List.map_cons, hrun, reportOn_cons_ok,
      List.head?_cons, hline, Option.getD_some]
  case translatePaced_eq => exact Session.translatePaced_of_find? hcancelled hfind
  case session_eq =>
    simp only [translateDocument, requests, Session.run, hcomments, List.map_cons, hrun,
      List.tail_cons]

/-- Whether a preview tells what a translation comes to: it shows what can be translated and
records nothing, what it shows of a line is applied to every document in which the first comment is
on that line, and if it shows nothing the cache is as it was. -/
structure Foretells (workflow : Workflow σ) (line language : String) (shown? : Option Preview)
    (after : Workflow σ) : Prop where
  shown_iff : ∀ shown, shown? = some shown ↔
    workflow.registry.extract? line language = some shown.comment ∧
      (workflow.session.translate (workflow.options.request shown.comment.body)).1 =
        .ok shown.translation
  history_eq : after.history = workflow.history
  cache_eq : shown? = none → after.session.cache = workflow.session.cache
  applies : ∀ shown, shown? = some shown → ∀ {τ : Type} (now : Workflow τ), now.GoesOnFrom after →
    ∀ (lines : List String) (index : Nat), lines[index]? = some line →
    (now.registry.comments lines language).head?.map Prod.fst = some index →
    now.Applies lines language index line shown

/-- A preview tells what a translation comes to, also when it takes the place of another
translation in the cache, or finds its own there already. -/
theorem foretells_preview (hcapacity : workflow.session.cache.capacity ≠ 0)
    (line language : String) :
    workflow.Foretells line language (workflow.preview line language).1
      (workflow.preview line language).2 := by
  have hiff : ∀ shown, (workflow.preview line language).1 = some shown ↔ _ :=
    fun _ => preview_eq_some_iff
  rcases workflow.preview_cases line language with
    heq | ⟨shown, session, hextract, htranslate, heq⟩ | ⟨session, hcache, heq⟩
  · rw [heq] at hiff ⊢
    constructor
    case shown_iff => exact hiff
    case history_eq => rfl
    case cache_eq => exact fun _ => rfl
    case applies =>
      intro shown hshown
      cases hshown
  · rw [heq] at hiff ⊢
    constructor
    case shown_iff => exact hiff
    case history_eq => rfl
    case cache_eq =>
      intro hnone
      cases hnone
    case applies =>
      intro _ hshown τ now hnow lines index hline hindex
      cases hshown
      -- The first comment is what is found on its line, and so the comment of the preview.
      obtain ⟨⟨_, comment⟩, hfirst, rfl⟩ := Option.map_eq_some_iff.mp hindex
      obtain ⟨text, htext, hfound, -⟩ := Registry.mem_comments.mp (List.mem_of_head? hfirst)
      obtain rfl := Option.some.inj (hline.symm.trans htext)
      rw [hnow.registry_eq, hextract] at hfound
      obtain rfl := Option.some.inj hfound
      have hfind := Session.find?_of_translate_ok hcapacity htranslate
      rw [← hnow.cache_eq, ← hnow.options_eq] at hfind
      exact applies_of_find? hline hfirst hnow.not_cancelled hfind
  · rw [heq] at hiff ⊢
    constructor
    case shown_iff => exact hiff
    case history_eq => rfl
    case cache_eq => exact fun _ => hcache
    case applies =>
      intro shown hshown
      cases hshown

/-- A workflow with one answer, and with room for one translation that is taken. -/
def crowded (registry : Registry) (answer : String) : Workflow Unit where
  registry := registry
  session := { Session.answering fun _ => answer with
    cache := ⟨1, [("old::en", ⟨"new", none, "en"⟩)]⟩ }
  history := ⟨5, []⟩
  options := { }

/-- A preview drops what the cache had, and a provider that has changed its mind is not asked. -/
theorem foretells_preview_crowded :
    ∃ registry shown, Registry.builtin = .ok registry ∧
      let preview := (crowded registry "x").preview " // a" "rust"
      let now := { preview.2 with
        session := { preview.2.session with
          translators := (crowded registry "y").session.translators } }
      preview.1 = some shown ∧ preview.2.session.cache.contains "old::en" = false ∧
        now.Applies ["a", " // a", "// b"] "rust" 1 " // a" shown ∧
        (now.translateDocument ["a", " // a", "// b"] "rust").1.edits.map Edit.after =
          [" // x", "// y"] := by
  obtain ⟨registry, hbuiltin, hcheck⟩ := Registry.exists_builtin
    (fun registry =>
      let preview := (crowded registry "x").preview " // a" "rust"
      let now := { preview.2 with
        session := { preview.2.session with
          translators := (crowded registry "y").session.translators } }
      preview.1 = some ⟨⟨" // ", "a", ""⟩, ⟨"x", none, "en"⟩⟩ ∧
        preview.2.session.cache.contains "old::en" = false ∧
        preview.2.session.cancelled = false ∧
        (now.registry.comments ["a", " // a", "// b"] "rust").head?.map Prod.fst = some 1 ∧
        (now.translateDocument ["a", " // a", "// b"] "rust").1.edits.map Edit.after =
          [" // x", "// y"])
    (by decide +kernel)
  obtain ⟨hshown, hdropped, hcancelled, hfirst, hedits⟩ := of_decide_eq_true hcheck
  refine ⟨registry, _, hbuiltin, hshown, hdropped, ?_, hedits⟩
  have hcapacity : (crowded registry "x").session.cache.capacity ≠ 0 := Nat.one_ne_zero
  have hforetells := foretells_preview hcapacity " // a" "rust"
  refine hforetells.applies _ hshown _ ?_ _ 1 rfl hfirst
  exact ⟨rfl, rfl, rfl, hcancelled⟩

end Workflow

end Marginalia
