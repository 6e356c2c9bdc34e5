import Marginalia.Proofs.Toml.Text
import Marginalia.Toml.Parser

/-! # Values in TOML read back

A text is read back as the text that it is, and a count that is written is read as a count and as
nothing else: a date or a number with a fraction would go on behind the digits with a character
that is none.
-/

namespace Marginalia.Toml

variable {digits rest after : List Char} {value count : Nat}

/-! ## Digits -/

theorem isDigit_of_mem_toDigits {c : Char} (h : c ∈ Nat.toDigits 10 value) : c.isDigit = true :=
  Nat.isDigit_of_mem_toDigits (by decide) (by decide) h

theorem ne_of_isDigit {c other : Char} (h : c.isDigit = true) (hother : other.isDigit = false) :
    c ≠ other := by
  intro heq
  rw [heq, hother] at h
  cases h

theorem head_toDigits_ne_zero (h : 0 < value) {others : List Char} :
    Nat.toDigits 10 value ≠ '0' :: others := by
  induction value using Nat.strongRecOn generalizing others with
  | ind value ih =>
      rcases Nat.lt_or_ge value 10 with hsmall | hlarge
      · have hdigit : ∀ value < 10, 0 < value → Nat.digitChar value ≠ '0' := by decide
        rw [Nat.toDigits_of_lt_base hsmall]
        intro heq
        exact hdigit value hsmall h (List.head_eq_of_cons_eq heq)
      · rw [Nat.toDigits_of_base_le (by decide) hlarge]
        cases hfewer : Nat.toDigits 10 (value / 10) with
        | nil => exact absurd hfewer Nat.toDigits_ne_nil
        | cons first fewer =>
            intro heq
            obtain rfl := List.head_eq_of_cons_eq heq
            exact ih (value / 10) (by omega) (by omega) hfewer

/-- A count is written with a digit in front, which is a zero only when it stands alone. -/
theorem toDigits_eq_cons (value : Nat) :
    ∃ first others, Nat.toDigits 10 value = first :: others ∧ first.isDigit = true ∧
      (first = '0' → others = []) := by
  cases hdigits : Nat.toDigits 10 value with
  | nil => exact absurd hdigits Nat.toDigits_ne_nil
  | cons first others =>
      refine ⟨first, others, rfl, ?_, ?_⟩
      · exact isDigit_of_mem_toDigits (hdigits ▸ List.mem_cons_self)
      · intro hzero
        rcases Nat.eq_zero_or_pos value with rfl | hpositive
        · cases hdigits
          rfl
        · exact absurd (hzero ▸ hdigits) (head_toDigits_ne_zero hpositive)

theorem digitsValue_toDigits (value : Nat) :
    Decimal.digitsValue (Nat.toDigits 10 value) = value :=
  Nat.ofDigitChars_toDigits (by decide) (by decide)

theorem digitsOn_append (hdigits : ∀ c ∈ digits, c.isDigit = true) (rest : List Char) :
    digitsOn Char.isDigit (digits ++ '\n' :: rest) = (digits, '\n' :: rest) := by
  induction digits with
  | nil => simp [digitsOn]
  | cons c digits ih =>
      obtain ⟨hfirst, hdigits⟩ := List.forall_mem_cons.mp hdigits
      have hnot : c ≠ '_' := ne_of_isDigit hfirst (by decide)
      rw [List.cons_append, digitsOn]
      · simp [hfirst, ih hdigits]
      · intro _ _ heq
        exact absurd heq hnot

/-! ## Counts -/

theorem readWhole_toDigits (value : Nat) (rest : List Char) :
    readWhole (Nat.toDigits 10 value ++ '\n' :: rest) =
      some (Nat.toDigits 10 value, '\n' :: rest) := by
  obtain ⟨first, others, hdigits, hfirst, hzero⟩ := toDigits_eq_cons value
  by_cases hnone : first = '0'
  · rw [hdigits, hnone, hzero hnone]
    rfl
  · have hread : digitsOn Char.isDigit (Nat.toDigits 10 value ++ '\n' :: rest) =
        (Nat.toDigits 10 value, '\n' :: rest) :=
      digitsOn_append (fun _ => isDigit_of_mem_toDigits) rest
    rw [hdigits, List.cons_append] at hread ⊢
    rw [readWhole]
    · simp [readDigits, hfirst, hread]
    · intro _ heq
      exact hnone (List.head_eq_of_cons_eq heq)

theorem readSign_toDigits (value : Nat) (rest : List Char) :
    readSign (Nat.toDigits 10 value ++ '\n' :: rest) =
      (false, Nat.toDigits 10 value ++ '\n' :: rest) := by
  obtain ⟨first, others, hdigits, hfirst, -⟩ := toDigits_eq_cons value
  have hplus : first ≠ '+' := ne_of_isDigit hfirst (by decide)
  have hminus : first ≠ '-' := ne_of_isDigit hfirst (by decide)
  simp [hdigits, readSign, hplus, hminus]

theorem integerOf?_of_lt (h : value < Nat.pow 2 63) : integerOf? value = some (.ofNat value) := by
  have hbound : -Int.ofNat (Nat.pow 2 63) ≤ (value : Int) ∧
      (value : Int) < Int.ofNat (Nat.pow 2 63) := by
    refine ⟨?_, Int.ofNat_lt.mpr h⟩
    exact Int.le_trans (Int.neg_nonpos_of_nonneg (Int.natCast_nonneg _)) (Int.natCast_nonneg _)
  rw [integerOf?, if_pos hbound]
  rfl

theorem readInteger_of_readWhole {written : List Char}
    (hsign : readSign written = (false, written)) (hwhole : readWhole written = some (digits, rest))
    (hbase : ∀ base others, written = '0' :: base :: others → base = '\n') :
    readInteger written =
      (integerOf? (Decimal.digitsValue digits)).bind fun data => some (data, rest) := by
  rw [readInteger, hsign]
  · dsimp only
    rw [hwhole, Option.bind_eq_bind, Option.bind_some]
    dsimp only
    rw [if_neg Bool.false_ne_true]
    rfl
  all_goals
    intro others heq
    exact absurd (hbase _ others heq) (by decide)

theorem readInteger_toDigits (hvalue : value < Nat.pow 2 63) (rest : List Char) :
    readInteger (Nat.toDigits 10 value ++ '\n' :: rest) =
      some (.ofNat value, '\n' :: rest) := by
  rw [readInteger_of_readWhole (readSign_toDigits value rest) (readWhole_toDigits value rest),
    digitsValue_toDigits, integerOf?_of_lt hvalue, Option.bind_some]
  intro base others heq
  obtain ⟨first, digits, hdigits, -, hzero⟩ := toDigits_eq_cons value
  rw [hdigits, List.cons_append] at heq
  rw [hzero (List.head_eq_of_cons_eq heq)] at heq
  cases heq
  rfl

theorem readFloat_toDigits (value : Nat) (rest : List Char) :
    readFloat (Nat.toDigits 10 value ++ '\n' :: rest) = none := by
  simp [readFloat, readSign_toDigits, readWhole_toDigits, readExponent]

theorem readSpecial_toDigits (value : Nat) (rest : List Char) :
    readSpecial (Nat.toDigits 10 value ++ '\n' :: rest) = none := by
  obtain ⟨first, others, hdigits, hfirst, -⟩ := toDigits_eq_cons value
  have hinf : first ≠ 'i' := ne_of_isDigit hfirst (by decide)
  have hnan : first ≠ 'n' := ne_of_isDigit hfirst (by decide)
  rw [readSpecial, readSign_toDigits, hdigits]
  simp [hinf, hnan]

/-- A part of a date or of a time goes on with a separator, which neither a digit nor the end of
the line is. -/
theorem expect_of_readFixed (separator : Char) (hdigits : ∀ c ∈ digits, c.isDigit = true)
    (hseparator : separator.isDigit = false) (hbreak : separator ≠ '\n')
    (h : readFixed count (digits ++ '\n' :: rest) = some (value, after)) :
    expect separator after = none := by
  simp only [readFixed] at h
  split at h
  case isFalse => cases h
  case isTrue hfixed =>
    cases h
    obtain ⟨hlength, hall⟩ := Bool.and_eq_true_iff.mp hfixed
    have hcount : count ≤ digits.length := by
      rcases Nat.lt_or_ge digits.length count with hshort | hcount
      · -- The end of the line would be among the digits.
        have hbreak : '\n' ∈ (digits ++ '\n' :: rest).take count := by
          obtain ⟨more, rfl⟩ := Nat.exists_eq_add_of_lt hshort
          simp [List.take_append, Nat.add_assoc]
        cases List.all_eq_true.mp hall _ hbreak
      · exact hcount
    rw [List.drop_append_of_le_length hcount]
    cases hdrop : digits.drop count with
    | nil => simp [expect, hbreak]
    | cons c others =>
        have hdigit := hdigits c (List.mem_of_mem_drop (hdrop ▸ List.mem_cons_self))
        simp [expect, (ne_of_isDigit hdigit hseparator).symm]

theorem readDateTime_of_isDigit (hdigits : ∀ c ∈ digits, c.isDigit = true) (rest : List Char) :
    readDateTime (digits ++ '\n' :: rest) = none := by
  have hdate : skipDate (digits ++ '\n' :: rest) = none := by
    rw [skipDate]
    cases hyear : readFixed 4 (digits ++ '\n' :: rest) with
    | none => rfl
    | some year =>
        simp [expect_of_readFixed '-' hdigits (by decide) (by decide) hyear]
  have htime : skipTime (digits ++ '\n' :: rest) = none := by
    rw [skipTime]
    cases hhour : readFixed 2 (digits ++ '\n' :: rest) with
    | none => rfl
    | some hour =>
        simp [expect_of_readFixed ':' hdigits (by decide) (by decide) hhour]
  simp [readDateTime, skipDateTime, hdate, htime]

theorem readNumber_toDigits (hvalue : value < Nat.pow 2 63) (rest : List Char) :
    readNumber (Nat.toDigits 10 value ++ '\n' :: rest) = some (.ofNat value, '\n' :: rest) := by
  rw [readNumber, readDateTime_of_isDigit fun _ => isDigit_of_mem_toDigits, readFloat_toDigits,
    readSpecial_toDigits, readInteger_toDigits hvalue]
  rfl

/-! ## Values -/

theorem quoteList_eq_cons (text : List Char) :
    ∃ quote others, quoteList text = quote :: others ∧ (quote = '"' ∨ quote = '\'') := by
  rcases form_cases text with hform | hform | ⟨hform, -⟩ | ⟨hform, -⟩
  all_goals simp [quoteList, hform]

theorem readValue_of_isDigit {first : Char} (fuel depth : Nat) (h : first.isDigit = true)
    (others : List Char) :
    readValue (fuel + 1) depth (first :: others) = readNumber (first :: others) := by
  rw [readValue]
  all_goals
    intros
    rename_i heq
    obtain rfl := List.head_eq_of_cons_eq heq
    revert h
    decide

/-- The value that is read for a value that was written. -/
def Scalar.data : Scalar → Data
  | .text value => .ofString value
  | .count value => .ofNat value

/-- The written form of a value does not begin with a blank. -/
theorem Scalar.toList_eq_cons {scalar : Scalar} {written : String}
    (h : scalar.render? = some written) :
    ∃ first others, written.toList = first :: others ∧ isSpace first = false := by
  cases scalar with
  | text value =>
      cases h
      obtain ⟨quote, others, hquote, hform⟩ := quoteList_eq_cons value.toList
      refine ⟨quote, others, by rw [Toml.quote, String.toList_ofList, hquote], ?_⟩
      rcases hform with rfl | rfl <;> decide
  | count value =>
      simp only [Scalar.render?, Option.ite_none_right_eq_some, Option.some.injEq] at h
      obtain ⟨first, others, hdigits, hfirst, -⟩ := toDigits_eq_cons value
      refine ⟨first, others, by rw [← h.2, Nat.toString_eq_repr, Nat.toList_repr, hdigits], ?_⟩
      have hspace : first ≠ ' ' := ne_of_isDigit hfirst (by decide)
      have htab : first ≠ '\t' := ne_of_isDigit hfirst (by decide)
      simp [isSpace, hspace, htab]

theorem readValue_render {scalar : Scalar} {written : String} (fuel depth : Nat)
    (h : scalar.render? = some written) (rest : List Char) :
    readValue (fuel + 1) depth (written.toList ++ '\n' :: rest) =
      some (scalar.data, '\n' :: rest) := by
  cases scalar with
  | text value =>
      cases h
      obtain ⟨quote, others, hquote, hform⟩ := quoteList_eq_cons value.toList
      have hread : readText (quoteList value.toList ++ '\n' :: rest) =
          some (value.toList, '\n' :: rest) :=
        readText_quoteList value.toList rfl
      rw [Toml.quote, String.toList_ofList]
      rw [hquote, List.cons_append] at hread ⊢
      rcases hform with rfl | rfl
      all_goals
        rw [readValue]
        simp [hread, Scalar.data]
  | count value =>
      simp only [Scalar.render?, Option.ite_none_right_eq_some, Option.some.injEq] at h
      obtain ⟨hvalue, rfl⟩ := h
      have hread := readNumber_toDigits hvalue rest
      obtain ⟨first, others, hdigits, hfirst, -⟩ := toDigits_eq_cons value
      rw [Nat.toString_eq_repr, Nat.toList_repr]
      rw [hdigits, List.cons_append] at hread ⊢
      rw [readValue_of_isDigit fuel depth hfirst, hread]
      rfl

end Marginalia.Toml
