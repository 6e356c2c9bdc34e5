import Marginalia.Proofs.Cache.Entries

/-! # When two requests share a key

A key is the normal form of a text, two colons and a target language. Nothing in it marks which
colons stand between the two, so a text with colons inside may share its key with a shorter text
and a longer language. These are all the keys that are shared: languages without a colon keep
all requests apart, and a cache then answers with translations of the same normal form into the
same language only.
-/

namespace Marginalia.Cache

/-- What a text is known by: the text without the blanks at its ends, in lowercase. -/
def normal (text : String) : String := Text.lower (Text.trim text)

/-- Whether the second pair of a text and a language is the first one with the beginning of the
language moved over into the text. -/
def Shifted (text target longer shorter : String) : Prop :=
  (longer = text ++ ":" ∧ target = ":" ++ shorter) ∨
    ∃ between, longer = text ++ "::" ++ between ∧ target = between ++ "::" ++ shorter

/-- The cache after translations of texts into languages were stored one after the other. -/
def storeAll (cache : Cache) (stores : List ((String × String) × Translation)) : Cache :=
  stores.foldl (fun cache store => cache.set (key store.1.1 store.1.2) store.2) cache

section Colons

variable {text target longer shorter : String} {first second : List Char}

theorem shifted_iff :
    Shifted text target longer shorter ↔
      (longer.toList = text.toList ++ [':'] ∧ target.toList = ':' :: shorter.toList) ∨
        ∃ between, longer.toList = text.toList ++ ':' :: ':' :: between ∧
          target.toList = between ++ ':' :: ':' :: shorter.toList := by
  have hcolon : ":".toList = [':'] := rfl
  have hcolons : "::".toList = [':', ':'] := rfl
  simp only [Shifted, ← String.toList_inj, String.toList_append, hcolon, hcolons,
    List.append_assoc, List.cons_append, List.nil_append]
  refine or_congr_right ⟨?_, ?_⟩
  · rintro ⟨between, h⟩
    exact ⟨between.toList, h⟩
  · rintro ⟨between, h⟩
    exact ⟨String.ofList between, by simpa only [String.toList_ofList] using h⟩

theorem cons_cons_eq_append_iff {middle : List Char} :
    ':' :: ':' :: first = middle ++ ':' :: ':' :: second ↔
      (middle = [] ∧ first = second) ∨ (middle = [':'] ∧ first = ':' :: second) ∨
        ∃ between, middle = ':' :: ':' :: between ∧ first = between ++ ':' :: ':' :: second := by
  match middle with
  | [] => simp
  | [c] => simp [eq_comm]
  | c :: d :: between =>
      simp only [List.cons_append, List.cons.injEq, reduceCtorEq, false_and, and_false, false_or]
      constructor
      · rintro ⟨rfl, rfl, rfl⟩
        exact ⟨between, ⟨rfl, rfl, rfl⟩, rfl⟩
      · rintro ⟨_, ⟨rfl, rfl, rfl⟩, rfl⟩
        exact ⟨rfl, rfl, rfl⟩

/-- The middle is what the one pair counts to the text and the other one to the language. -/
theorem exists_middle_iff :
    (∃ middle, longer.toList = text.toList ++ middle ∧
        ':' :: ':' :: target.toList = middle ++ ':' :: ':' :: shorter.toList) ↔
      (target = shorter ∧ text = longer) ∨ Shifted text target longer shorter := by
  rw [shifted_iff]
  simp only [cons_cons_eq_append_iff]
  constructor
  · rintro ⟨middle, hlonger, ⟨rfl, htarget⟩ | ⟨rfl, htarget⟩ | ⟨between, rfl, htarget⟩⟩
    · rw [List.append_nil] at hlonger
      exact Or.inl ⟨String.toList_inj.mp htarget, String.toList_inj.mp hlonger.symm⟩
    · exact Or.inr (Or.inl ⟨hlonger, htarget⟩)
    · exact Or.inr (Or.inr ⟨between, hlonger, htarget⟩)
  · rintro (⟨rfl, rfl⟩ | ⟨hlonger, htarget⟩ | ⟨between, hlonger, htarget⟩)
    · exact ⟨[], by simp⟩
    · exact ⟨[':'], hlonger, Or.inr (Or.inl ⟨rfl, htarget⟩)⟩
    · exact ⟨':' :: ':' :: between, hlonger, Or.inr (Or.inr ⟨between, rfl, htarget⟩)⟩

theorem Shifted.mem_target (h : Shifted text target longer shorter) : ':' ∈ target.toList := by
  rcases shifted_iff.mp h with ⟨-, htarget⟩ | ⟨between, -, htarget⟩ <;> simp [htarget]

end Colons

variable {text other target language : String}

/-- Two requests share a key exactly when they agree in normal form and language, or the one is
the other with the beginning of the language moved over into the text. -/
theorem key_eq_key_iff :
    key text target = key other language ↔ (target = language ∧ normal text = normal other) ∨
      Shifted (normal text) target (normal other) language ∨
      Shifted (normal other) language (normal text) target := by
  have hkey (text target : String) :
      (key text target).toList = (normal text).toList ++ ':' :: ':' :: target.toList := by
    simp [key, normal]
  rw [← String.toList_inj, hkey, hkey, List.append_eq_append_iff]
  have hleft := @exists_middle_iff (normal text) target (normal other) language
  have hright := @exists_middle_iff (normal other) language (normal text) target
  rw [hleft, hright]
  constructor
  · rintro ((hsame | hshifted) | (⟨rfl, htext⟩ | hshifted))
    · exact Or.inl hsame
    · exact Or.inr (Or.inl hshifted)
    · exact Or.inl ⟨rfl, htext.symm⟩
    · exact Or.inr (Or.inr hshifted)
  · rintro (hsame | hshifted | hshifted)
    · exact Or.inl (Or.inl hsame)
    · exact Or.inl (Or.inr hshifted)
    · exact Or.inr (Or.inr hshifted)

/-- A cache that was filled by storing holds only what was stored. -/
theorem exists_mem_of_mem_storeAll {cache : Cache} {stores : List ((String × String) × Translation)}
    {entry : String × Translation} (h : entry ∈ (cache.storeAll stores).entries) :
    entry ∈ cache.entries ∨ ∃ store ∈ stores, entry = (key store.1.1 store.1.2, store.2) := by
  induction stores generalizing cache with
  | nil => exact Or.inl h
  | cons store stores ih =>
      rcases ih h with hmem | ⟨later, hmem, rfl⟩
      · rcases mem_of_mem_set hmem with rfl | hmem
        · exact Or.inr ⟨store, List.mem_cons_self, rfl⟩
        · exact Or.inl hmem
      · exact Or.inr ⟨later, List.mem_cons_of_mem store hmem, rfl⟩

/-- The requests that share a key, and what follows for languages without a colon: keys keep
all requests apart, and what an empty cache answers after any stores was stored for a text of
the same normal form and for the same language. -/
theorem key_eq_key_iff_and_served (text other target language : String) :
    (key text target = key other language ↔ (target = language ∧ normal text = normal other) ∨
      Shifted (normal text) target (normal other) language ∨
      Shifted (normal other) language (normal text) target) ∧
    (':' ∉ target.toList → ':' ∉ language.toList →
      (key text target = key other language ↔ target = language ∧ normal text = normal other)) ∧
    ∀ (capacity : Nat) (stores : List ((String × String) × Translation)) (value : Translation),
      ':' ∉ target.toList → (∀ store ∈ stores, ':' ∉ store.1.2.toList) →
      (storeAll ⟨capacity, []⟩ stores).find? (key text target) = some value →
      ∃ store ∈ stores, store.1.2 = target ∧ normal store.1.1 = normal text ∧ store.2 = value := by
  have hapart (other language : String) (htarget : ':' ∉ target.toList)
      (hlanguage : ':' ∉ language.toList) :
      key text target = key other language ↔ target = language ∧ normal text = normal other := by
    rw [key_eq_key_iff]
    constructor
    · rintro (hsame | hshifted | hshifted)
      · exact hsame
      · exact absurd hshifted.mem_target htarget
      · exact absurd hshifted.mem_target hlanguage
    · exact Or.inl
  refine ⟨key_eq_key_iff, hapart other language, ?_⟩
  intro capacity stores value htarget hstores hfind
  rcases exists_mem_of_mem_storeAll (mem_of_find? hfind) with hmem | ⟨store, hmem, hentry⟩
  · cases hmem
  · obtain ⟨hkey, hvalue⟩ := Prod.mk.inj hentry
    obtain ⟨hlanguage, hnormal⟩ := (hapart store.1.1 store.1.2 htarget (hstores store hmem)).mp hkey
    exact ⟨store, hmem, hlanguage.symm, hnormal.symm, hvalue.symm⟩

/-- A text with colons inside, beside its own beginning and stored in other letters. -/
theorem key_eq_key_iff_and_served_colons :
    let stores := [(("a", "en"), ⟨"b", none, "en"⟩), ((" A::EN", "en"), ⟨"c", none, "en"⟩)]
    (storeAll ⟨2, []⟩ stores).find? (key "a::en" "en") = some ⟨"c", none, "en"⟩ ∧
      ∃ store ∈ stores, store.1.2 = "en" ∧ normal store.1.1 = normal "a::en" ∧
        store.2 = ⟨"c", none, "en"⟩ := by
  obtain ⟨-, -, hserved⟩ := key_eq_key_iff_and_served "a::en" "a" "en" "en"
  exact ⟨by decide, hserved 2 _ _ (by decide) (by decide) (by decide)⟩

/-- A language with colons inside: the text `x` in it and the text `x::y` in the language `z`
share their key, so the translation of the one is the answer for the other. -/
theorem find?_of_shifted_language :
    key "x::y" "z" = key "x" "y::z" ∧ normal "x::y" ≠ normal "x" ∧
      (storeAll ⟨10, []⟩ [(("x", "y::z"), ⟨"v", none, "y::z"⟩)]).find? (key "x::y" "z") =
        some ⟨"v", none, "y::z"⟩ := by
  decide

end Marginalia.Cache
