import Marginalia.Toml.Printer
import Marginalia.Toml.Text

/-! # Texts in TOML read back

Whatever a text holds, reading its written form gives the text again. For a form with escapes this
is so character by character; in a form of three quotes up to two quotes in a row stand as they
are, so there the reader is followed with the quotes that it has not yet taken as its state.
-/

namespace Marginalia.Toml

variable {c : Char} {text rest after piece : List Char} {allowed run count : Nat} {keeps : Bool}

/-! ## Escapes -/

/-- Whether a text is an escape of a character. -/
inductive Denotes : List Char → Char → Prop
  | letter {letter c : Char} (h : escaped? letter = some c) : Denotes ['\\', letter] c
  | scalar {a b d e c : Char} (h : scalar? [a, b, d, e] = some c) :
    Denotes ['\\', 'u', a, b, d, e] c

theorem hexDigit?_toUpper_hexDigit :
    ∀ value < 16, Json.hexDigit? (Json.hexDigit value).toUpper = some value := by
  decide

theorem scalar?_of_point {digits : List Char}
    (h : digits.foldlM (fun value c => do some (16 * value + (← Json.hexDigit? c))) 0 =
      some c.toNat) : scalar? digits = some c := by
  rw [scalar?, h]
  exact dif_pos c.valid

theorem denotes_escapeControl (h : c.toNat < 0x20 ∨ c.toNat = 0x7f) :
    Denotes (escapeControl c) c := by
  unfold escapeControl
  split
  case h_6 =>
    apply Denotes.scalar
    have hhigh := hexDigit?_toUpper_hexDigit (c.toNat / 16) (by omega)
    have hlow := hexDigit?_toUpper_hexDigit (c.toNat % 16) (by omega)
    have hpoint : 16 * (c.toNat / 16) + c.toNat % 16 = c.toNat := Nat.div_add_mod ..
    have hzero : Json.hexDigit? '0' = some 0 := by decide
    apply scalar?_of_point
    simp [hhigh, hlow, hzero, hpoint]
  all_goals exact Denotes.letter rfl

theorem exists_of_denotes (h : Denotes piece c) : ∃ others, piece = '\\' :: others := by
  cases h with
  | letter => exact ⟨_, rfl⟩
  | scalar => exact ⟨_, rfl⟩

/-- What is written for one more character: a quote as it is, an escape, a line break as it is, or
a character that may stand for itself. -/
theorem escape_cons_cases (allowed : Nat) (keeps : Bool) (run : Nat) (c : Char)
    (text : List Char) :
    (c = '"' ∧ run < allowed ∧
      escape allowed keeps run (c :: text) = '"' :: escape allowed keeps (run + 1) text) ∨
    (∃ piece, Denotes piece c ∧
      escape allowed keeps run (c :: text) = piece ++ escape allowed keeps 0 text) ∨
    (c = '\n' ∧ keeps = true ∧
      escape allowed keeps run (c :: text) = '\n' :: escape allowed keeps 0 text) ∨
    (isPlain c = true ∧ c ≠ '"' ∧ c ≠ '\\' ∧
      escape allowed keeps run (c :: text) = c :: escape allowed keeps 0 text) := by
  rw [escape]
  split
  case isTrue hquote =>
    obtain rfl := beq_iff_eq.mp hquote
    split
    case isTrue hrun => exact Or.inl ⟨rfl, hrun, rfl⟩
    case isFalse => exact Or.inr (Or.inl ⟨['\\', '"'], .letter rfl, rfl⟩)
  case isFalse hquote =>
    right
    split
    case isTrue hbackslash =>
      obtain rfl := beq_iff_eq.mp hbackslash
      exact Or.inl ⟨['\\', '\\'], .letter rfl, rfl⟩
    case isFalse hbackslash =>
      split
      case isTrue hbreak =>
        obtain ⟨hbreak, hkeeps⟩ := Bool.and_eq_true_iff.mp hbreak
        obtain rfl := beq_iff_eq.mp hbreak
        exact Or.inr (Or.inl ⟨rfl, hkeeps, rfl⟩)
      case isFalse =>
        split
        case isTrue hcontrol =>
          refine Or.inl ⟨escapeControl c, denotes_escapeControl ?_, rfl⟩
          simpa using hcontrol
        case isFalse hcontrol =>
          refine Or.inr (Or.inr ⟨?_, by simpa using hquote, by simpa using hbackslash, rfl⟩)
          have hrange : 0x20 ≤ c.toNat ∧ c.toNat ≠ 0x7f := by simpa using hcontrol
          simp [isPlain, hrange]

/-! ## On one line -/

attribute [local simp] readBasic readLiteral

theorem readBasic_plain (hplain : isPlain c = true) (hquote : c ≠ '"') (hbackslash : c ≠ '\\')
    (h : readBasic rest = some (text, after)) :
    readBasic (c :: rest) = some (c :: text, after) := by
  rw [readBasic]
  · simp [hplain, hbackslash, h]
  all_goals simp [hquote, hbackslash]

theorem readBasic_of_denotes (hpiece : Denotes piece c)
    (h : readBasic rest = some (text, after)) :
    readBasic (piece ++ rest) = some (c :: text, after) := by
  cases hpiece with
  | @letter letter _ hletter =>
      have hnot : letter ≠ 'u' ∧ letter ≠ 'U' := by
        constructor <;> (intro hu; simp [hu, escaped?] at hletter)
      simp [hnot, hletter, h]
  | scalar hscalar => simp [hscalar, h]

theorem readBasic_escape (text rest : List Char) :
    readBasic (escape 0 false run text ++ '"' :: rest) = some (text, rest) := by
  induction text generalizing run with
  | nil => simp [escape]
  | cons c text ih =>
      rcases escape_cons_cases 0 false run c text with
        ⟨-, hrun, -⟩ | ⟨piece, hpiece, heq⟩ | ⟨-, hkeeps, -⟩ | ⟨hplain, hquote, hbackslash, heq⟩
      · cases hrun
      · rw [heq, List.append_assoc]
        exact readBasic_of_denotes hpiece ih
      · cases hkeeps
      · rw [heq]
        exact readBasic_plain hplain hquote hbackslash ih

theorem readLiteral_of_plain (rest : List Char) (hplain : ∀ c ∈ text, isPlain c = true)
    (hquote : '\'' ∉ text) : readLiteral (text ++ '\'' :: rest) = some (text, rest) := by
  induction text with
  | nil => simp
  | cons c text ih =>
      obtain ⟨hfirst, hplain⟩ := List.forall_mem_cons.mp hplain
      have hne : c ≠ '\'' := (List.ne_of_not_mem_cons hquote).symm
      simp [hfirst, ih hplain (List.not_mem_of_not_mem_cons hquote)]

/-! ## Over several lines -/

attribute [local simp] readBasicLines

theorem readBasicLines_plain (hplain : isPlain c = true) (hquote : c ≠ '"')
    (hbackslash : c ≠ '\\') (h : readBasicLines false rest = some (text, after)) :
    readBasicLines false (c :: rest) = some (c :: text, after) := by
  have hbreaks : c ≠ '\r' ∧ c ≠ '\n' := by
    constructor <;> (intro hbreak; rw [hbreak] at hplain; revert hplain; decide)
  rw [readBasicLines]
  · simp [hplain, hbackslash, h]
  all_goals simp [hquote, hbackslash, hbreaks]

theorem readBasicLines_break (h : readBasicLines false rest = some (text, after)) :
    readBasicLines false ('\n' :: rest) = some ('\n' :: text, after) := by
  simp [h]

/-- A quote that no two quotes follow stands for itself. -/
theorem readBasicLines_quote (hnot : ∀ others, rest ≠ '"' :: '"' :: others)
    (h : readBasicLines false rest = some (text, after)) :
    readBasicLines false ('"' :: rest) = some ('"' :: text, after) := by
  have hplain : isPlain '"' = true := by decide
  rw [readBasicLines]
  · simp [hplain, h]
  all_goals simp [hnot]

theorem readBasicLines_quotes (hcount : count ≤ 2) (hc : c ≠ '"')
    (h : readBasicLines false (c :: rest) = some (text, after)) :
    readBasicLines false (List.replicate count '"' ++ c :: rest) =
      some (List.replicate count '"' ++ text, after) := by
  have hone := readBasicLines_quote (by simp [hc]) h
  match count, hcount with
  | 0, _ => exact h
  | 1, _ => exact hone
  | 2, _ => exact readBasicLines_quote (by simp [hc]) hone

theorem readBasicLines_close (hcount : count ≤ 2) (hrest : rest.head? ≠ some '"') :
    readBasicLines false (List.replicate count '"' ++ '"' :: '"' :: '"' :: rest) =
      some (List.replicate count '"', rest) := by
  have hnot : ∀ others, rest ≠ '"' :: others := by
    intro others heq
    exact hrest (by simp [heq])
  match count, hcount with
  | 0, _ | 1, _ | 2, _ => simp [List.replicate, hnot]

theorem endsLine_of_escaped? {letter : Char} (h : escaped? letter = some c) :
    endsLine (letter :: rest) = false := by
  unfold escaped? at h
  split at h
  case h_8 => cases h
  all_goals simp [endsLine, skipSpaces, isSpace, afterNewline?]

theorem readBasicLines_of_denotes (hpiece : Denotes piece c)
    (h : readBasicLines false rest = some (text, after)) :
    readBasicLines false (piece ++ rest) = some (c :: text, after) := by
  cases hpiece with
  | @letter letter _ hletter =>
      have hnot : letter ≠ 'u' ∧ letter ≠ 'U' := by
        constructor <;> (intro hu; simp [hu, escaped?] at hletter)
      simp [hnot, hletter, endsLine_of_escaped? hletter, h]
  | scalar hscalar => simp [hscalar, h]

/-- The reader with up to two quotes before it that it has not taken yet. -/
theorem readBasicLines_escape (hcount : count ≤ 2) (text : List Char)
    (hrest : rest.head? ≠ some '"') :
    readBasicLines false (List.replicate count '"' ++
        (escape 2 true count text ++ '"' :: '"' :: '"' :: rest)) =
      some (List.replicate count '"' ++ text, rest) := by
  induction text generalizing count with
  | nil =>
      rw [escape, List.nil_append, List.append_nil]
      exact readBasicLines_close hcount hrest
  | cons c text ih =>
      have hnone := ih (Nat.zero_le 2)
      rw [List.replicate_zero, List.nil_append, List.nil_append] at hnone
      rcases escape_cons_cases 2 true count c text with
        ⟨rfl, hrun, heq⟩ | ⟨piece, hpiece, heq⟩ | ⟨rfl, -, heq⟩ | ⟨hplain, hquote, hbackslash, heq⟩
      · have hmore := ih (show count + 1 ≤ 2 from hrun)
        rw [List.replicate_succ', List.append_assoc, List.append_assoc] at hmore
        rw [heq]
        exact hmore
      · obtain ⟨others, hothers⟩ := exists_of_denotes hpiece
        have hread := readBasicLines_of_denotes hpiece hnone
        rw [hothers] at hread
        rw [heq, hothers]
        exact readBasicLines_quotes hcount (by decide) (by simpa using hread)
      · rw [heq]
        exact readBasicLines_quotes hcount (by decide) (readBasicLines_break hnone)
      · rw [heq]
        exact readBasicLines_quotes hcount hquote
          (readBasicLines_plain hplain hquote hbackslash hnone)

/-! ## Over several lines, as they are -/

attribute [local simp] readLiteralLines

theorem readLiteralLines_char (hc : isPlain c = true ∨ c = '\n') (hquote : c ≠ '\'')
    (h : readLiteralLines rest = some (text, after)) :
    readLiteralLines (c :: rest) = some (c :: text, after) := by
  rcases hc with hplain | rfl
  · have hbreaks : c ≠ '\r' ∧ c ≠ '\n' := by
      constructor <;> (intro hbreak; rw [hbreak] at hplain; revert hplain; decide)
    simp [hplain, hquote, hbreaks, h]
  · simp [h]

theorem readLiteralLines_quote (hnot : ∀ others, rest ≠ '\'' :: '\'' :: others)
    (h : readLiteralLines rest = some (text, after)) :
    readLiteralLines ('\'' :: rest) = some ('\'' :: text, after) := by
  have hplain : isPlain '\'' = true := by decide
  rw [readLiteralLines]
  · simp [hplain, h]
  all_goals simp [hnot]

theorem readLiteralLines_quotes (hcount : count ≤ 2) (hc : c ≠ '\'')
    (h : readLiteralLines (c :: rest) = some (text, after)) :
    readLiteralLines (List.replicate count '\'' ++ c :: rest) =
      some (List.replicate count '\'' ++ text, after) := by
  have hone := readLiteralLines_quote (by simp [hc]) h
  match count, hcount with
  | 0, _ => exact h
  | 1, _ => exact hone
  | 2, _ => exact readLiteralLines_quote (by simp [hc]) hone

theorem readLiteralLines_close (hcount : count ≤ 2) (hrest : rest.head? ≠ some '\'') :
    readLiteralLines (List.replicate count '\'' ++ '\'' :: '\'' :: '\'' :: rest) =
      some (List.replicate count '\'', rest) := by
  have hnot : ∀ others, rest ≠ '\'' :: others := by
    intro others heq
    exact hrest (by simp [heq])
  match count, hcount with
  | 0, _ | 1, _ | 2, _ => simp [List.replicate, hnot]

/-- The reader with up to two quotes before it that it has not taken yet. -/
theorem readLiteralLines_of_longestRun (hruns : longestRun '\'' count text ≤ 2)
    (hchars : ∀ c ∈ text, isPlain c = true ∨ c = '\n') (hrest : rest.head? ≠ some '\'') :
    readLiteralLines (List.replicate count '\'' ++ (text ++ '\'' :: '\'' :: '\'' :: rest)) =
      some (List.replicate count '\'' ++ text, rest) := by
  induction text generalizing count with
  | nil =>
      rw [List.nil_append, List.append_nil]
      exact readLiteralLines_close hruns hrest
  | cons c text ih =>
      obtain ⟨hfirst, hothers⟩ := List.forall_mem_cons.mp hchars
      rw [longestRun] at hruns
      split at hruns
      case isTrue hquote =>
        obtain rfl := beq_iff_eq.mp hquote
        have hmore := ih hruns hothers
        rw [List.replicate_succ', List.append_assoc, List.append_assoc] at hmore
        exact hmore
      case isFalse hquote =>
        obtain ⟨hcount, hruns⟩ := Nat.max_le.mp hruns
        have hquote : c ≠ '\'' := by simpa using hquote
        have hnone := ih hruns hothers
        exact readLiteralLines_quotes hcount hquote (readLiteralLines_char hfirst hquote hnone)

/-! ## The form of a text -/

theorem le_longestRun (quote : Char) (current : Nat) (text : List Char) :
    current ≤ longestRun quote current text := by
  induction text generalizing current with
  | nil => exact Nat.le_refl current
  | cons c text ih =>
      rw [longestRun]
      split
      · exact Nat.le_of_succ_le (ih (current + 1))
      · exact Nat.le_max_left ..

theorem not_mem_of_longestRun {quote : Char} (h : longestRun quote 0 text = 0) :
    quote ∉ text := by
  induction text with
  | nil => exact List.not_mem_nil
  | cons c text ih =>
      rw [longestRun] at h
      split at h
      case isTrue =>
        have hpositive := le_longestRun quote (0 + 1) text
        omega
      case isFalse hquote =>
        have hrest : longestRun quote 0 text = 0 := by omega
        have hne : quote ≠ c := by
          intro heq
          simp [heq] at hquote
        exact List.not_mem_cons_of_ne_of_not_mem hne (ih hrest)

theorem isPlain_or_of_hasControl (h : (Traits.of text).hasControl = false) :
    ∀ c ∈ text, isPlain c = true ∨ c = '\n' := by
  intro c hc
  have hsoft : isHardControl c = false := by
    simpa using List.any_eq_false.mp h c hc
  by_cases hbreak : c = '\n'
  · exact Or.inr hbreak
  · left
    simp only [isHardControl, Bool.or_eq_false_iff, Bool.and_eq_false_iff, bne_eq_false_iff_eq,
      decide_eq_false_iff_not, beq_eq_false_iff_ne, hbreak, or_false] at hsoft
    obtain ⟨hlow | htab, hdelete⟩ := hsoft
    · have hhigh : 0x20 ≤ c.toNat := Nat.not_lt.mp hlow
      simp [isPlain, hhigh, hdelete]
    · simp [isPlain, htab]

/-! ## All forms -/

/-- The line break at the front of a form of three quotes is the one that is passed over. -/
theorem dropNewline_lineBreak {others : List Char}
    (hfirst : '\n' ∉ text → ∀ c ∈ others.head?, c ≠ '\n' ∧ c ≠ '\r') :
    dropNewline ((if text.contains '\n' then ['\n'] else []) ++ others) = others := by
  split
  case isTrue => rfl
  case isFalse hnone =>
    cases others with
    | nil => rfl
    | cons c others =>
        obtain ⟨hbreak, hreturn⟩ := hfirst (by simpa using hnone) c rfl
        simp [dropNewline, afterNewline?, hbreak, hreturn]

theorem ne_break_of_isPlain (h : isPlain c = true) : c ≠ '\n' ∧ c ≠ '\r' := by
  constructor <;> (intro hbreak; rw [hbreak] at h; revert h; decide)

/-- What is written between the quotes does not begin with a quote that stays as it is. -/
theorem escape_ne_quote (others : List Char) : escape 0 keeps run text ≠ '"' :: others := by
  cases text with
  | nil => simp [escape]
  | cons c text =>
      rcases escape_cons_cases 0 keeps run c text with
        ⟨-, hrun, -⟩ | ⟨piece, hpiece, heq⟩ | ⟨-, -, heq⟩ | ⟨-, hquote, -, heq⟩
      · cases hrun
      · obtain ⟨rest, rfl⟩ := exists_of_denotes hpiece
        simp [heq]
      · simp [heq]
      · simp [heq, hquote]

theorem readText_basic (hrest : rest.head? ≠ some '"') :
    readText ('"' :: (escape 0 false 0 text ++ '"' :: rest)) = some (text, rest) := by
  rw [readText, readBasic_escape]
  intro others heq
  cases hescape : escape 0 false 0 text with
  | nil =>
      rw [hescape, List.nil_append, List.cons_inj_right] at heq
      exact hrest (by simp [heq])
  | cons c written =>
      rw [hescape, List.cons_append, List.cons_eq_cons] at heq
      exact escape_ne_quote _ (heq.1 ▸ hescape)

theorem readText_literal (hplain : ∀ c ∈ text, isPlain c = true) (hquote : '\'' ∉ text)
    (hrest : rest.head? ≠ some '\'') :
    readText ('\'' :: (text ++ '\'' :: rest)) = some (text, rest) := by
  rw [readText, readLiteral_of_plain rest hplain hquote]
  intro others heq
  cases text with
  | nil =>
      rw [List.nil_append, List.cons_inj_right] at heq
      exact hrest (by simp [heq])
  | cons c text =>
      rw [List.cons_append, List.cons_eq_cons] at heq
      exact hquote (heq.1 ▸ List.mem_cons_self)

theorem readText_basicLines (text : List Char) (hrest : rest.head? ≠ some '"') :
    readText ('"' :: '"' :: '"' :: ((if text.contains '\n' then ['\n'] else []) ++
      (escape 2 true 0 text ++ '"' :: '"' :: '"' :: rest))) = some (text, rest) := by
  rw [readText, dropNewline_lineBreak]
  · exact readBasicLines_escape (Nat.zero_le 2) text hrest
  · intro hnone first hfirst
    cases text with
    | nil =>
        cases hfirst
        decide
    | cons c text =>
        rcases escape_cons_cases 2 true 0 c text with
          ⟨-, -, heq⟩ | ⟨piece, hpiece, heq⟩ | ⟨rfl, -, -⟩ | ⟨hplain, -, -, heq⟩
        · rw [heq] at hfirst
          cases hfirst
          decide
        · obtain ⟨others, rfl⟩ := exists_of_denotes hpiece
          rw [heq] at hfirst
          cases hfirst
          decide
        · exact absurd List.mem_cons_self hnone
        · rw [heq] at hfirst
          cases hfirst
          exact ne_break_of_isPlain hplain

theorem readText_literalLines (hchars : ∀ c ∈ text, isPlain c = true ∨ c = '\n')
    (hruns : longestRun '\'' 0 text ≤ 2) (hrest : rest.head? ≠ some '\'') :
    readText ('\'' :: '\'' :: '\'' :: ((if text.contains '\n' then ['\n'] else []) ++
      (text ++ '\'' :: '\'' :: '\'' :: rest))) = some (text, rest) := by
  rw [readText, dropNewline_lineBreak]
  · exact readLiteralLines_of_longestRun hruns hchars hrest
  · intro hnone first hfirst
    cases text with
    | nil =>
        cases hfirst
        decide
    | cons c text =>
        rcases hchars c List.mem_cons_self with hplain | rfl
        · cases hfirst
          exact ne_break_of_isPlain hplain
        · exact absurd List.mem_cons_self hnone

/-- A form in single quotes is taken only for a text that needs no escapes. -/
theorem form_cases (text : List Char) :
    (Traits.of text).form = .basic ∨ (Traits.of text).form = .basicLines ∨
    ((Traits.of text).form = .literal ∧ (∀ c ∈ text, isPlain c = true) ∧ '\'' ∉ text) ∨
    ((Traits.of text).form = .literalLines ∧ (∀ c ∈ text, isPlain c = true ∨ c = '\n') ∧
      longestRun '\'' 0 text ≤ 2) := by
  unfold Traits.form
  split
  case isTrue => exact Or.inl rfl
  case isFalse =>
    split
    case isTrue h =>
      right; right; left
      simp only [Bool.and_eq_true, Bool.not_eq_true', beq_iff_eq] at h
      obtain ⟨⟨hsoft, hruns⟩, hnone⟩ := h
      have hnone : '\n' ∉ text := by simpa [Traits.of] using hnone
      refine ⟨rfl, ?_, not_mem_of_longestRun hruns⟩
      intro c hc
      rcases isPlain_or_of_hasControl hsoft c hc with hplain | rfl
      · exact hplain
      · exact absurd hc hnone
    case isFalse =>
      split
      case isTrue => exact Or.inr (Or.inl rfl)
      case isFalse =>
        split
        case isTrue h =>
          right; right; right
          simp only [Bool.and_eq_true, Bool.not_eq_true', decide_eq_true_eq] at h
          exact ⟨rfl, isPlain_or_of_hasControl h.1, h.2⟩
        case isFalse =>
          split
          case isTrue => exact Or.inr (Or.inl rfl)
          case isFalse => exact Or.inl rfl

/-- A written text reads back, with a line break behind it. -/
theorem readText_quoteList (text : List Char) (hrest : rest.head? = some '\n') :
    readText (quoteList text ++ rest) = some (text, rest) := by
  have hdouble : rest.head? ≠ some '"' := by simp [hrest]
  have hsingle : rest.head? ≠ some '\'' := by simp [hrest]
  have hnewline : (Traits.of text).hasNewline = text.contains '\n' := rfl
  rcases form_cases text with hform | hform | ⟨hform, hplain, hquote⟩ | ⟨hform, hchars, hruns⟩
  · simpa [quoteList, hform] using readText_basic hdouble
  · simpa [quoteList, hform, hnewline] using readText_basicLines text hdouble
  · simpa [quoteList, hform] using readText_literal hplain hquote hsingle
  · simpa [quoteList, hform, hnewline] using readText_literalLines hchars hruns hsingle

end Marginalia.Toml
