import Marginalia.Text.Alphanumeric
import Marginalia.Text.Blank
import Mathlib.Data.List.Infix
import Mathlib.Data.List.TakeWhile

/-! # The edges of a text

What a text begins or ends with once the blanks at that edge are left out, and where the parts
of such a text lie.
-/

namespace Marginalia.Text

/-- Whether the text begins with the token behind its leading blanks. -/
def opensWith (text token : List Char) : Bool := token.isPrefixOf (dropBlanks text)

/-- Whether the text ends with the token before its trailing blanks. -/
def closesWith (text token : List Char) : Bool := token.isSuffixOf (dropBlanksEnd text)

theorem dropBlanks_append_of_blank {before : List Char} (hbefore : ∀ c ∈ before, isBlank c = true)
    (text : List Char) : dropBlanks (before ++ text) = dropBlanks text :=
  List.dropWhile_append_of_pos hbefore

theorem exists_eq_append_dropBlanks (text : List Char) :
    ∃ before, text = before ++ dropBlanks text ∧ ∀ c ∈ before, isBlank c = true :=
  ⟨text.takeWhile isBlank, (takeWhile_append_dropBlanks text).symm,
    fun _ hc => List.mem_takeWhile_imp hc⟩

theorem exists_eq_dropBlanksEnd_append (text : List Char) :
    ∃ after, text = dropBlanksEnd text ++ after ∧ ∀ c ∈ after, isBlank c = true := by
  obtain ⟨after, htext, hafter⟩ := exists_eq_append_dropBlanks text.reverse
  refine ⟨after.reverse, ?_, fun c hc => hafter c (List.mem_reverse.mp hc)⟩
  rw [dropBlanksEnd, ← List.reverse_append, ← htext, List.reverse_reverse]

theorem dropBlanksEnd_append_of_blank {after : List Char} (text : List Char)
    (hafter : ∀ c ∈ after, isBlank c = true) :
    dropBlanksEnd (text ++ after) = dropBlanksEnd text := by
  rw [dropBlanksEnd, List.reverse_append,
    dropBlanks_append_of_blank fun c hc => hafter c (List.mem_reverse.mp hc), dropBlanksEnd]

theorem dropBlanksEnd_concat {c : Char} (text : List Char) (hc : isBlank c = false) :
    dropBlanksEnd (text ++ [c]) = text ++ [c] := by
  rw [dropBlanksEnd, List.reverse_concat, dropBlanks_of_not_blank c _ hc, List.reverse_cons,
    List.reverse_reverse]

theorem length_dropBlanksEnd_append_le {text after : List Char}
    (hafter : ∀ c ∈ after, isBlank c = true) :
    (dropBlanksEnd (text ++ after)).length ≤ text.length := by
  obtain ⟨others, htext, -⟩ := exists_eq_dropBlanksEnd_append text
  rw [dropBlanksEnd_append_of_blank text hafter]
  exact List.IsPrefix.length_le ⟨others, htext.symm⟩

/-- Blanks in front of another character are all the leading blanks. -/
theorem takeWhile_isBlank_append {before after : List Char} {c : Char}
    (hbefore : ∀ c ∈ before, isBlank c = true) (hc : isBlank c = false) :
    (before ++ c :: after).takeWhile isBlank = before := by
  rw [List.takeWhile_append_of_pos hbefore, List.takeWhile_cons_of_neg (by simp [hc]),
    List.append_nil]

theorem length_le_takeWhile_isBlank {before : List Char} (hbefore : ∀ c ∈ before, isBlank c = true)
    (after : List Char) : before.length ≤ ((before ++ after).takeWhile isBlank).length := by
  rw [List.takeWhile_append_of_pos hbefore, List.length_append]
  exact Nat.le_add_right _ _

theorem isBlank_eq_false_of_dropBlanks_eq_cons {text rest : List Char} {c : Char}
    (h : dropBlanks text = c :: rest) : isBlank c = false := by
  have hc := List.head?_dropWhile_not isBlank text
  rwa [← dropBlanks, h] at hc

/-- Behind the leading blanks stands the first other character. -/
theorem exists_cons_of_not_all_blank {text : List Char} (h : ¬ text.all isBlank = true) :
    ∃ c rest, dropBlanks text = c :: rest ∧ isBlank c = false := by
  cases htext : dropBlanks text with
  | nil => exact absurd (List.all_eq_true.mpr (List.dropWhile_eq_nil_iff.mp htext)) h
  | cons c rest => exact ⟨c, rest, rfl, isBlank_eq_false_of_dropBlanks_eq_cons htext⟩

/-- The token that a text opens with is the first that is not blank, so no other token can
stand there. -/
theorem opensWith_append {before token : List Char} {c : Char}
    (hbefore : ∀ c ∈ before, isBlank c = true) (hc : isBlank c = false) (after : List Char) :
    opensWith (before ++ c :: after) token = token.isPrefixOf (c :: after) := by
  rw [opensWith, dropBlanks_append_of_blank hbefore, dropBlanks_of_not_blank c after hc]

theorem opensWith_of_eq {text before token after : List Char} {c : Char}
    (htext : text = before ++ (c :: token) ++ after) (hbefore : ∀ c ∈ before, isBlank c = true)
    (hc : isBlank c = false) : opensWith text (c :: token) = true := by
  have hassoc : text = before ++ c :: (token ++ after) := by rw [htext, List.append_assoc]; rfl
  rw [hassoc, opensWith_append hbefore hc, List.isPrefixOf_iff_prefix]
  exact ⟨after, rfl⟩

theorem exists_eq_of_opensWith {text token : List Char} (h : opensWith text token = true) :
    ∃ before after, text = before ++ token ++ after ∧ ∀ c ∈ before, isBlank c = true := by
  obtain ⟨before, htext, hbefore⟩ := exists_eq_append_dropBlanks text
  obtain ⟨after, hafter⟩ := List.isPrefixOf_iff_prefix.mp h
  exact ⟨before, after, by rw [List.append_assoc, hafter, ← htext], hbefore⟩

/-- A character that neither the leading blanks nor the token have stands behind both. -/
theorem mem_behind_token {before token after : List Char} {c : Char}
    (hbefore : ∀ c ∈ before, isBlank c = true) (hmem : c ∈ before ++ token ++ after)
    (hc : isBlank c = false) (htoken : c ∉ token) : c ∈ after := by
  rw [List.mem_append, List.mem_append] at hmem
  rcases hmem with (hblank | hin) | hafter
  · rw [hbefore c hblank] at hc
    cases hc
  · exact absurd hin htoken
  · exact hafter

theorem exists_eq_of_closesWith {text token : List Char} (h : closesWith text token = true) :
    ∃ before after, text = before ++ token ++ after ∧ ∀ c ∈ after, isBlank c = true := by
  obtain ⟨after, htext, hafter⟩ := exists_eq_dropBlanksEnd_append text
  obtain ⟨before, hbefore⟩ := List.isSuffixOf_iff_suffix.mp h
  exact ⟨before, after, by rw [hbefore, ← htext], hafter⟩

/-- A text closes with what its last character that is not blank ends. -/
theorem closesWith_append {before token after : List Char} {c : Char} (hc : isBlank c = false)
    (hafter : ∀ c ∈ after, isBlank c = true) :
    closesWith (before ++ [c] ++ after) token = token.isSuffixOf (before ++ [c]) := by
  rw [closesWith, dropBlanksEnd_append_of_blank _ hafter, dropBlanksEnd_concat before hc]

theorem closesWith_of_eq {text before after : List Char} (token : List Char) (c : Char)
    (htext : text = before ++ (token ++ [c]) ++ after) (hafter : ∀ c ∈ after, isBlank c = true)
    (hc : isBlank c = false) : closesWith text (token ++ [c]) = true := by
  rw [htext, ← List.append_assoc before, closesWith_append hc hafter,
    List.isSuffixOf_iff_suffix]
  exact ⟨before, (List.append_assoc _ _ _).symm⟩

/-- When a text closes with a token, a part at its end that has a character which neither the
token nor the blanks behind it have goes on to the token. -/
theorem exists_split_of_closesWith {text part token : List Char} (hpart : part <:+ text)
    (h : closesWith text token = true) {c : Char} (hmem : c ∈ part) (hc : isBlank c = false)
    (htoken : c ∉ token) :
    ∃ before after, part = before ++ token ++ after ∧ c ∈ before ∧
      ∀ d ∈ after, isBlank d = true := by
  obtain ⟨before, after, htext, hafter⟩ := exists_eq_of_closesWith h
  have hend : c ∉ token ++ after := by
    rw [List.mem_append, not_or]
    exact ⟨htoken, fun hin => by rw [hafter c hin] at hc; cases hc⟩
  -- Both ends are ends of one text; the shorter one cannot be the part, as it lacks `c`.
  have hsuffix : token ++ after <:+ text := ⟨before, by rw [htext, List.append_assoc]⟩
  rcases List.suffix_or_suffix_of_suffix hpart hsuffix with hle | ⟨front, hfront⟩
  · exact absurd (hle.mem hmem) hend
  · refine ⟨front, after, by rw [← hfront, List.append_assoc], ?_, hafter⟩
    rw [← hfront] at hmem
    exact (List.mem_append.mp hmem).resolve_right hend

theorem occursIn_iff_infix {needle text : List Char} :
    occursIn needle text = true ↔ needle <:+: text := by
  induction text with
  | nil => simp [occursIn]
  | cons c text ih =>
      rw [occursIn, Bool.or_eq_true, ih, List.isPrefixOf_iff_prefix, List.infix_cons_iff]

/-- The blank characters, by their code points. -/
def blankPoints : List Nat :=
  [0x9, 0xa, 0xb, 0xc, 0xd, 0x20, 0x85, 0xa0, 0x1680, 0x2000, 0x2001, 0x2002, 0x2003, 0x2004,
    0x2005, 0x2006, 0x2007, 0x2008, 0x2009, 0x200a, 0x2028, 0x2029, 0x202f, 0x205f, 0x3000]

theorem toNat_mem_blankPoints {c : Char} (h : isBlank c = true) : c.toNat ∈ blankPoints := by
  have hlow (point : Nat) (hle : 0x9 ≤ point ∧ point ≤ 0xd) : point ∈ blankPoints := by
    simp only [blankPoints, List.mem_cons]
    omega
  have hhigh (point : Nat) (hle : 0x2000 ≤ point ∧ point ≤ 0x200a) : point ∈ blankPoints := by
    simp only [blankPoints, List.mem_cons]
    omega
  simp only [isBlank, Bool.or_eq_true, Bool.and_eq_true, decide_eq_true_eq, beq_iff_eq] at h
  rcases h with (((((((((h | rfl) | rfl) | rfl) | rfl) | h) | rfl) | rfl) | rfl) | rfl) | rfl
  any_goals decide
  · exact hlow c.toNat h
  · exact hhigh c.toNat h

/-- Blanks are neither letters nor numbers. -/
theorem isBlank_eq_false_of_isAlphanumeric {c : Char} (h : isAlphanumeric c = true) :
    isBlank c = false := by
  have hpoints : ∀ point ∈ blankPoints,
      (alphabetic.mem point || numbersBesideLetters.mem point) = false := by decide +kernel
  by_contra hblank
  have hpoint := hpoints c.toNat (toNat_mem_blankPoints (by simpa using hblank))
  rw [isAlphanumeric, CodePoints.contains, CodePoints.contains, hpoint] at h
  cases h

theorem isAlphanumeric_eq_false_of_isBlank {c : Char} (h : isBlank c = true) :
    isAlphanumeric c = false := by
  by_contra hc
  rw [Bool.not_eq_false] at hc
  rw [isBlank_eq_false_of_isAlphanumeric hc] at h
  cases h

/-- Whether the character is neither a blank nor a letter or a number. -/
def isMark (c : Char) : Bool := !isBlank c && !isAlphanumeric c

theorem isBlank_eq_false_of_isMark {c : Char} (h : isMark c = true) : isBlank c = false := by
  rw [isMark, Bool.and_eq_true, Bool.not_eq_true'] at h
  exact h.1

theorem isAlphanumeric_eq_false_of_isMark {c : Char} (h : isMark c = true) :
    isAlphanumeric c = false := by
  rw [isMark, Bool.and_eq_true, Bool.not_eq_true', Bool.not_eq_true'] at h
  exact h.2

end Marginalia.Text
