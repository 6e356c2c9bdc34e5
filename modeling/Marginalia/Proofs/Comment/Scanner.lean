import Marginalia.Proofs.Comment.Parts

/-! # A scanner for comments with slashes and stars

Five patterns in their order decide about a line of a language whose comments are those of
JavaScript. A scanner without patterns looks at the first characters that are not blank and at the
last ones, and finds the same comment on every line.
-/

namespace Marginalia

open Pattern

namespace Text

/-- What stands behind the token at the front, unless that is nothing. -/
def behind? (token text : List Char) : Option (List Char) :=
  let rest := text.drop token.length
  if token.isPrefixOf text && !rest.isEmpty then some rest else none

/-- What stands before the token at the end, unless that is nothing, and everything after it.
Blanks at the end do not count. -/
def beforeEnd? (token text : List Char) : Option (List Char × List Char) :=
  let cut := dropBlanksEnd text
  let inner := cut.take (cut.length - token.length)
  if token.isSuffixOf cut && !inner.isEmpty then some (inner, text.drop inner.length) else none

end Text

namespace Comment

/-- The comment that opens with the text `before` and goes up to the end of the line. Blanks go to
the opening as long as the body keeps a character. -/
def openForm (before rest : List Char) : Comment :=
  let blanks := rest.dropLast.takeWhile Text.isBlank
  ⟨.ofList (before ++ blanks), .ofList (rest.drop blanks.length), ""⟩

/-- The comment between the text `before` and the text `closing`. Blanks around the body go to
both sides; of blanks alone the last one is the body. -/
def closedForm (before inner closing : List Char) : Comment :=
  if inner.all Text.isBlank then
    ⟨.ofList (before ++ inner.dropLast), .ofList (inner.drop (inner.length - 1)), .ofList closing⟩
  else
    let blanks := inner.takeWhile Text.isBlank
    let body := Text.trimList inner
    ⟨.ofList (before ++ blanks), .ofList body,
      .ofList (inner.drop (blanks.length + body.length) ++ closing)⟩

/-- The comment at the end of a block, before the text `closing`. -/
def lastForm (before inner closing : List Char) : Comment :=
  let body := Text.dropBlanksEnd inner
  ⟨.ofList before, .ofList body, .ofList (inner.drop body.length ++ closing)⟩

end Comment

/-- The comment on a line of a language whose comments are those of JavaScript. -/
def scanSlashStar (line : List Char) : Option Comment :=
  let blanks := line.takeWhile Text.isBlank
  let text := Text.dropBlanks line
  match Text.behind? ['/', '/'] text with
  | some rest => some (.openForm (blanks ++ ['/', '/']) rest)
  | none =>
    match Text.behind? ['/', '*'] text with
    | some rest =>
      match Text.beforeEnd? ['*', '/'] rest with
      | some (inner, closing) => some (.closedForm (blanks ++ ['/', '*']) inner closing)
      | none => some (.openForm (blanks ++ ['/', '*']) rest)
    | none =>
      match Text.behind? ['*'] text with
      | some rest => some (.openForm (blanks ++ ['*']) rest)
      | none =>
        (Text.beforeEnd? ['*', '/'] text).map fun (inner, closing) =>
          .lastForm blanks inner closing

/-! ## The ends of a text -/

namespace Text

theorem behind?_eq_some_iff {token text rest : List Char} :
    behind? token text = some rest ↔ rest ≠ [] ∧ text = token ++ rest := by
  simp only [behind?, Option.ite_none_right_eq_some, Bool.and_eq_true, Bool.not_eq_true',
    List.isPrefixOf_iff_prefix, List.isEmpty_eq_false_iff, Option.some_inj]
  constructor
  · rintro ⟨⟨⟨after, rfl⟩, hne⟩, hrest⟩
    rw [List.drop_left] at hne hrest
    exact ⟨hrest ▸ hne, by rw [hrest]⟩
  · rintro ⟨hne, rfl⟩
    rw [List.drop_left]
    exact ⟨⟨List.prefix_append _ _, hne⟩, rfl⟩

theorem dropBlanksEnd_append_token (text : List Char) (token : Token) :
    dropBlanksEnd (text ++ token.characters) = text ++ token.characters := by
  have hmark := List.all_eq_true.mp token.marks _ (List.getLast_mem token.ne_nil)
  rw [← List.dropLast_concat_getLast token.ne_nil, ← List.append_assoc,
    dropBlanksEnd_concat _ (isBlank_eq_false_of_isMark hmark)]

theorem beforeEnd?_eq_some_iff {token : Token} {text inner closing : List Char} :
    beforeEnd? token.characters text = some (inner, closing) ↔
      inner ≠ [] ∧ text = inner ++ closing ∧
        ∃ after, closing = token.characters ++ after ∧ ∀ c ∈ after, isBlank c = true := by
  simp only [beforeEnd?, Option.ite_none_right_eq_some, Bool.and_eq_true, Bool.not_eq_true',
    List.isSuffixOf_iff_suffix, List.isEmpty_eq_false_iff, Option.some_inj, Prod.mk.injEq]
  constructor
  · rintro ⟨⟨⟨front, hfront⟩, hne⟩, hinner, hclosing⟩
    obtain ⟨after, htext, hafter⟩ := exists_eq_dropBlanksEnd_append text
    rw [← hfront, List.length_append, Nat.add_sub_cancel, List.take_left] at hne hinner hclosing
    subst hinner
    rw [← hfront, List.append_assoc] at htext
    rw [htext, List.drop_left] at hclosing
    exact ⟨hne, hclosing ▸ htext, after, hclosing.symm, hafter⟩
  · rintro ⟨hne, rfl, after, rfl, hafter⟩
    rw [← List.append_assoc, dropBlanksEnd_append_of_blank _ hafter, dropBlanksEnd_append_token,
      List.length_append, Nat.add_sub_cancel, List.take_left, List.append_assoc, List.drop_left]
    exact ⟨⟨List.suffix_append _ _, hne⟩, rfl, rfl⟩

end Text

namespace Pattern

open Text

/-! ## Splits around a token -/

/-- What stands before a closing token at the end of a line is determined by the line. -/
theorem exists_eq_of_padded {closer : Token} {body closing inner closing' after : List Char}
    (hbody : body ≠ []) (hclosing : (Part.padded closer).texts closing) (hinner : inner ≠ [])
    (hclosing' : closing' = closer.characters ++ after) (hafter : ∀ c ∈ after, isBlank c = true)
    (hline : body ++ closing = inner ++ closing') :
    ∃ blanks, (∀ c ∈ blanks, isBlank c = true) ∧ body ++ blanks = inner := by
  obtain ⟨blanks, after', rfl, hblanks, hafter'⟩ := hclosing
  have hfound : beforeEnd? closer.characters (inner ++ closing') = some (inner, closing') :=
    beforeEnd?_eq_some_iff.mpr ⟨hinner, rfl, after, hclosing', hafter⟩
  have hfound' : beforeEnd? closer.characters (inner ++ closing') =
      some (body ++ blanks, closer.characters ++ after') := by
    refine beforeEnd?_eq_some_iff.mpr ⟨by simp [hbody], ?_, after', rfl, hafter'⟩
    simp only [← hline, List.append_assoc]
  rw [hfound, Option.some_inj, Prod.mk.injEq] at hfound'
  exact ⟨blanks, hblanks, hfound'.1.symm⟩

/-- The places where a token among blanks can open a line. -/
theorem exists_eq_of_padded_opening {mark : Token} {opening : List Char}
    (hopening : (Part.padded mark).texts opening) (rest : List Char) :
    ∃ blanks, (∀ c ∈ blanks, isBlank c = true) ∧
      opening = (opening ++ rest).takeWhile isBlank ++ mark.characters ++ blanks ∧
      dropBlanks (opening ++ rest) = mark.characters ++ (blanks ++ rest) := by
  obtain ⟨before, after, rfl, hbefore, hafter⟩ := hopening
  obtain ⟨c, others, hmark, hc⟩ := mark.exists_cons
  refine ⟨after, hafter, ?_, ?_⟩
  · simp only [hmark, List.append_assoc, List.cons_append]
    rw [takeWhile_isBlank_append hbefore hc]
  · simp only [hmark, List.append_assoc, List.cons_append]
    rw [dropBlanks_append_of_blank hbefore, dropBlanks_of_not_blank _ _ hc]

/-- With a token in front of it the rest of a line splits in the open form. -/
theorem OpenSplit.of_behind {mark : Token} {line rest : List Char} (hline : '\n' ∉ line)
    (htext : dropBlanks line = mark.characters ++ rest) (hne : rest ≠ []) :
    OpenSplit (.padded mark) line
      (line.takeWhile isBlank ++ mark.characters ++ rest.dropLast.takeWhile isBlank)
      (rest.drop (rest.dropLast.takeWhile isBlank).length) := by
  have hsplit := takeWhile_append_dropBlanks line
  rw [htext] at hsplit
  have hbegins : rest.dropLast.takeWhile isBlank <+: rest.dropLast := List.takeWhile_prefix _
  have hrest := List.prefix_append_drop (hbegins.trans (List.dropLast_prefix rest))
  refine ⟨?_, ⟨_, _, rfl, fun _ => List.mem_takeWhile_imp, fun _ => List.mem_takeWhile_imp⟩,
    ?_, fun hin => hline ?_, ?_⟩
  · rw [List.append_assoc, ← hrest, List.append_assoc, hsplit]
  · have hlength := hbegins.length_le
    have hpos := List.length_pos_iff.mpr hne
    rw [List.length_dropLast] at hlength
    rw [Ne, List.drop_eq_nil_iff]
    omega
  · rw [← hsplit]
    exact List.mem_append_right _ (List.mem_append_right _ (List.mem_of_mem_drop hin))
  · intro opening body hopening hbody _ hparts
    obtain ⟨blanks, hblanks, heq, hdrop⟩ := exists_eq_of_padded_opening hopening body
    rw [hparts, htext] at hdrop
    obtain rfl := List.append_cancel_left hdrop
    have hle := length_le_takeWhile_isBlank hblanks body.dropLast
    rw [← List.dropLast_append_of_ne_nil hbody] at hle
    rw [heq, hparts]
    simp only [List.length_append] at hle ⊢
    omega

/-- A body between two blank margins is the shortest behind the longest opening if no other
margins are wider. -/
theorem ClosedSplit.of_margins {front : Front} {closer : Token}
    {line before lead body trail closing after : List Char} (hline : '\n' ∉ line)
    (hparts : line = before ++ (lead ++ body ++ trail ++ closing)) (hbody : body ≠ [])
    (hlead : ∀ c ∈ lead, isBlank c = true) (htrail : ∀ c ∈ trail, isBlank c = true)
    (hclosing : closing = closer.characters ++ after) (hafter : ∀ c ∈ after, isBlank c = true)
    (hfront : ∀ opening rest, opening ++ rest = line → (front.part.texts opening ↔
      ∃ blanks, (∀ c ∈ blanks, isBlank c = true) ∧ opening = before ++ blanks))
    (hlongest : ∀ {blanks others}, (∀ c ∈ blanks, isBlank c = true) → others ≠ [] →
      blanks ++ others = lead ++ body ++ trail → blanks.length ≤ lead.length)
    (hshortest : ∀ {text blanks}, text ≠ [] → (∀ c ∈ blanks, isBlank c = true) →
      text ++ blanks = body ++ trail → body.length ≤ text.length) :
    ClosedSplit front closer line (before ++ lead) body (trail ++ closing) := by
  have hinner : lead ++ body ++ trail ≠ [] := by simp [hbody]
  refine ⟨?_, ?_, hbody, fun hin => hline ?_, ⟨trail, after, ?_, htrail, hafter⟩, ?_, ?_⟩
  · simp only [hparts, List.append_assoc]
  · refine (hfront _ (body ++ (trail ++ closing)) ?_).mpr ⟨lead, hlead, rfl⟩
    simp only [hparts, List.append_assoc]
  · rw [hparts]
    simp [hin]
  · rw [hclosing, List.append_assoc]
  · intro opening' body' closing' hopening' hbody' _ hclosing' heq
    obtain ⟨blanks, hblanks, rfl⟩ := (hfront _ _ heq).mp hopening'
    rw [hparts, List.append_assoc] at heq
    have heq' : blanks ++ body' ++ closing' = lead ++ body ++ trail ++ closing := by
      rw [List.append_assoc]
      exact List.append_cancel_left heq
    obtain ⟨last, -, hsame⟩ :=
      exists_eq_of_padded (by simp [hbody']) hclosing' hinner hclosing hafter heq'
    rw [List.append_assoc] at hsame
    have hle := hlongest hblanks (by simp [hbody']) hsame
    simp only [List.length_append]
    omega
  · intro body' closing' hbody' _ hclosing' heq
    have heq' : lead ++ body' ++ closing' = lead ++ body ++ trail ++ closing := by
      simp only [List.append_assoc, heq]
    obtain ⟨last, hlast, hsame⟩ :=
      exists_eq_of_padded (by simp [hbody']) hclosing' hinner hclosing hafter heq'
    simp only [List.append_assoc] at hsame
    exact hshortest hbody' hlast (List.append_cancel_left hsame)

/-- Of blanks alone between an opener and a closer the last one is the body. -/
theorem ClosedSplit.of_blank {front : Front} {closer : Token}
    {line before inner closing after : List Char} (hline : '\n' ∉ line)
    (hparts : line = before ++ (inner ++ closing)) (hne : inner ≠ [])
    (hblank : ∀ c ∈ inner, isBlank c = true)
    (hclosing : closing = closer.characters ++ after) (hafter : ∀ c ∈ after, isBlank c = true)
    (hfront : ∀ opening rest, opening ++ rest = line → (front.part.texts opening ↔
      ∃ blanks, (∀ c ∈ blanks, isBlank c = true) ∧ opening = before ++ blanks)) :
    ClosedSplit front closer line (before ++ inner.dropLast) (inner.drop (inner.length - 1))
      closing := by
  have hpos := List.length_pos_iff.mpr hne
  have hinner : inner.dropLast ++ inner.drop (inner.length - 1) ++ [] = inner := by
    rw [List.append_nil, List.dropLast_eq_take, List.take_append_drop]
  refine .of_margins hline (hinner.symm ▸ hparts) ?_
    (fun c hc => hblank c (List.mem_of_mem_dropLast hc)) (by simp) hclosing hafter hfront ?_ ?_
  · rw [Ne, List.drop_eq_nil_iff]
    omega
  · intro blanks others _ hothers heq
    have hlength := congrArg List.length (heq.trans hinner)
    have := List.length_pos_iff.mpr hothers
    rw [List.length_append] at hlength
    rw [List.length_dropLast]
    omega
  · intro text blanks htext _ _
    have := List.length_pos_iff.mpr htext
    rw [List.length_drop]
    omega

/-- Otherwise the blanks at both ends are margins of the body. -/
theorem ClosedSplit.of_core {front : Front} {closer : Token}
    {line before lead core closing after : List Char} {c : Char} (hline : '\n' ∉ line)
    (hparts : line = before ++ (lead ++ c :: core ++ closing)) (hc : isBlank c = false)
    (hlead : ∀ c ∈ lead, isBlank c = true)
    (hclosing : closing = closer.characters ++ after) (hafter : ∀ c ∈ after, isBlank c = true)
    (hfront : ∀ opening rest, opening ++ rest = line → (front.part.texts opening ↔
      ∃ blanks, (∀ c ∈ blanks, isBlank c = true) ∧ opening = before ++ blanks)) :
    ClosedSplit front closer line (before ++ lead) (dropBlanksEnd (c :: core))
      ((c :: core).drop (dropBlanksEnd (c :: core)).length ++ closing) := by
  obtain ⟨trail, hcore, htrail⟩ := exists_eq_dropBlanksEnd_append (c :: core)
  have hdrop := (congrArg (List.drop (dropBlanksEnd (c :: core)).length) hcore).trans List.drop_left
  have hshorter {text blanks : List Char} (hblanks : ∀ c ∈ blanks, isBlank c = true)
      (heq : text ++ blanks = c :: core) : (dropBlanksEnd (c :: core)).length ≤ text.length :=
    heq ▸ length_dropBlanksEnd_append_le hblanks
  rw [hdrop]
  generalize dropBlanksEnd (c :: core) = body at hcore hshorter
  refine .of_margins hline ?_ ?_ hlead htrail hclosing hafter hfront ?_ ?_
  · simp only [hparts, hcore, List.append_assoc]
  · rintro rfl
    rw [htrail c (by rw [← List.nil_append trail, ← hcore]; exact List.mem_cons_self)] at hc
    cases hc
  · intro blanks others hblanks _ heq
    have hle := length_le_takeWhile_isBlank hblanks others
    rwa [heq, List.append_assoc, ← hcore, takeWhile_isBlank_append hlead hc] at hle
  · intro text blanks _ hblanks heq
    exact hshorter hblanks (heq.trans hcore.symm)

theorem ClosedSplit.of_closedForm {front : Front} {closer : Token}
    {line before inner closing after : List Char} (hline : '\n' ∉ line)
    (hparts : line = before ++ (inner ++ closing)) (hne : inner ≠ [])
    (hclosing : closing = closer.characters ++ after) (hafter : ∀ c ∈ after, isBlank c = true)
    (hfront : ∀ opening rest, opening ++ rest = line → (front.part.texts opening ↔
      ∃ blanks, (∀ c ∈ blanks, isBlank c = true) ∧ opening = before ++ blanks)) :
    ClosedSplit front closer line (Comment.closedForm before inner closing).opening.toList
      (Comment.closedForm before inner closing).body.toList
      (Comment.closedForm before inner closing).closing.toList := by
  by_cases hblank : inner.all isBlank = true
  · simp only [Comment.closedForm, if_pos hblank, String.toList_ofList]
    exact .of_blank hline hparts hne (List.all_eq_true.mp hblank) hclosing hafter hfront
  · simp only [Comment.closedForm, if_neg hblank, String.toList_ofList, trimList]
    obtain ⟨c, core, hcore, hc⟩ := exists_cons_of_not_all_blank hblank
    have hinner := takeWhile_append_dropBlanks inner
    rw [hcore] at hinner
    have hdrop (count : Nat) : inner.drop ((inner.takeWhile isBlank).length + count) =
        (c :: core).drop count :=
      (congrArg (List.drop _) hinner.symm).trans (List.drop_length_add_append count)
    rw [hcore, hdrop]
    exact .of_core hline (hinner.symm ▸ hparts) hc (fun _ => List.mem_takeWhile_imp) hclosing
      hafter hfront

/-- A split in the closed form has its body between the tokens. -/
theorem ClosedSplit.exists_inner {mark closer : Token} {line opening body closing : List Char}
    (h : ClosedSplit (.padded mark) closer line opening body closing) :
    ∃ rest found, behind? mark.characters (dropBlanks line) = some rest ∧
      beforeEnd? closer.characters rest = some found := by
  obtain ⟨blanks, -, -, hdrop⟩ :=
    exists_eq_of_padded_opening h.opening_texts (body ++ closing)
  rw [← h.line_eq] at hdrop
  obtain ⟨trail, after, rfl, -, hafter⟩ := h.closing_texts
  refine ⟨_, (blanks ++ body ++ trail, closer.characters ++ after),
    behind?_eq_some_iff.mpr ⟨by simp [h.body_ne_nil], hdrop⟩,
    beforeEnd?_eq_some_iff.mpr ⟨by simp [h.body_ne_nil], ?_, after, rfl, hafter⟩⟩
  simp only [List.append_assoc]

/-- A split behind blanks alone has its body before the closing token, unless nothing but blanks
stands there. -/
theorem ClosedSplit.exists_inner_of_blanks {closer : Token} {line opening body closing : List Char}
    (h : ClosedSplit .blanks closer line opening body closing) :
    closer.characters <+: dropBlanks line ∨
      ∃ found, beforeEnd? closer.characters (dropBlanks line) = some found := by
  obtain ⟨trail, after, hclosing, -, hafter⟩ := h.closing_texts
  have hline : line = opening ++ body ++ trail ++ (closer.characters ++ after) := by
    rw [h.line_eq, hclosing]
    simp only [List.append_assoc]
  rw [hline, dropBlanks, List.dropWhile_append]
  split
  next =>
    obtain ⟨c, others, hmark, hc⟩ := closer.exists_cons
    left
    rw [hmark, List.cons_append, ← dropBlanks, dropBlanks_of_not_blank _ _ hc]
    exact List.prefix_append (c :: others) after
  next hne =>
    right
    exact ⟨_, beforeEnd?_eq_some_iff.mpr ⟨by simpa using hne, rfl, after, rfl, hafter⟩⟩

theorem texts_blanks_iff (opening : List Char) :
    Front.blanks.part.texts opening ↔
      ∃ blanks, (∀ c ∈ blanks, isBlank c = true) ∧ opening = [] ++ blanks := by
  constructor
  · exact fun h => ⟨opening, h, rfl⟩
  · rintro ⟨blanks, hblanks, rfl⟩
    exact hblanks

theorem texts_padded_iff {mark : Token} {opening rest line : List Char}
    (hline : opening ++ rest = line) :
    (Front.padded mark).part.texts opening ↔ ∃ blanks, (∀ c ∈ blanks, isBlank c = true) ∧
      opening = line.takeWhile isBlank ++ mark.characters ++ blanks := by
  constructor
  · intro hopening
    obtain ⟨blanks, hblanks, heq, -⟩ := exists_eq_of_padded_opening hopening rest
    exact ⟨blanks, hblanks, hline ▸ heq⟩
  · rintro ⟨blanks, hblanks, rfl⟩
    exact ⟨_, blanks, rfl, fun _ => List.mem_takeWhile_imp, hblanks⟩

end Pattern

/-! ## The rules -/

namespace Rule

open Text

variable {rule : Rule} {line : String}

/-- A rule of the open form looks at what stands behind its token. -/
theorem extract?_eq_map_openForm (mark : Token) {greedy : Bool}
    (hexpr : rule.pattern.expr = .dividing [.padded mark.characters, .content greedy])
    (hline : '\n' ∉ line.toList) :
    rule.extract? line = (behind? mark.characters (dropBlanks line.toList)).map
      (Comment.openForm (line.toList.takeWhile isBlank ++ mark.characters)) := by
  have hexpr : rule.pattern.expr = .dividing [(Front.padded mark).part.expr, .content greedy] :=
    hexpr
  cases hbehind : behind? mark.characters (dropBlanks line.toList) with
  | some rest =>
      obtain ⟨hne, htext⟩ := behind?_eq_some_iff.mp hbehind
      rw [Option.map_some, extract?_eq_some_iff_openSplit hexpr]
      simp only [Comment.openForm, String.toList_ofList]
      exact ⟨trivial, .of_behind hline htext hne⟩
  | none =>
      rw [Option.map_none, Option.eq_none_iff_forall_ne_some]
      intro comment hextract
      obtain ⟨-, hsplit⟩ := (extract?_eq_some_iff_openSplit hexpr).mp hextract
      obtain ⟨blanks, -, -, hdrop⟩ :=
        exists_eq_of_padded_opening hsplit.opening_texts comment.body.toList
      rw [← hsplit.line_eq] at hdrop
      have hbody : blanks ++ comment.body.toList ≠ [] := by simp [hsplit.body_ne_nil]
      rw [behind?_eq_some_iff.mpr ⟨hbody, hdrop⟩] at hbehind
      cases hbehind

/-- A rule of the closed form looks at what stands between its tokens. -/
theorem extract?_eq_bind_closedForm (mark closer : Token)
    (hexpr : rule.pattern.expr =
      .dividing [.padded mark.characters, .content false, .padded closer.characters])
    (hline : '\n' ∉ line.toList) :
    rule.extract? line = (behind? mark.characters (dropBlanks line.toList)).bind fun rest =>
      (beforeEnd? closer.characters rest).map fun (inner, closing) =>
        Comment.closedForm (line.toList.takeWhile isBlank ++ mark.characters) inner closing := by
  have hexpr : rule.pattern.expr = .dividing [(Front.padded mark).part.expr, .content false,
    .padded closer.characters] := hexpr
  cases hbehind : behind? mark.characters (dropBlanks line.toList) with
  | none =>
      rw [Option.bind_none, Option.eq_none_iff_forall_ne_some]
      intro comment hextract
      obtain ⟨rest, found, hrest, -⟩ :=
        ((extract?_eq_some_iff_closedSplit hexpr).mp hextract).exists_inner
      rw [hbehind] at hrest
      cases hrest
  | some rest =>
      obtain ⟨hne, htext⟩ := behind?_eq_some_iff.mp hbehind
      cases hend : beforeEnd? closer.characters rest with
      | none =>
          rw [Option.bind_some, hend, Option.map_none, Option.eq_none_iff_forall_ne_some]
          intro comment hextract
          obtain ⟨rest', found, hrest, hfound⟩ :=
            ((extract?_eq_some_iff_closedSplit hexpr).mp hextract).exists_inner
          obtain rfl := Option.some.inj (hbehind.symm.trans hrest)
          rw [hend] at hfound
          cases hfound
      | some found =>
          obtain ⟨inner, closing⟩ := found
          obtain ⟨hinner, rfl, after, hclosing, hafter⟩ := beforeEnd?_eq_some_iff.mp hend
          rw [Option.bind_some, hend, Option.map_some, extract?_eq_some_iff_closedSplit hexpr]
          refine .of_closedForm hline ?_ hinner hclosing hafter fun _ _ => texts_padded_iff
          rw [List.append_assoc, ← htext, takeWhile_append_dropBlanks]

/-- A rule for the end of a block looks at what stands before its token. -/
theorem extract?_eq_map_lastForm (closer : Token)
    (hexpr : rule.pattern.expr = .dividing [.blanks, .content false, .padded closer.characters])
    (hline : '\n' ∉ line.toList) (hfirst : ¬ closer.characters <+: dropBlanks line.toList) :
    rule.extract? line = (beforeEnd? closer.characters (dropBlanks line.toList)).map
      fun (inner, closing) => Comment.lastForm (line.toList.takeWhile isBlank) inner closing := by
  have hexpr : rule.pattern.expr = .dividing [Front.blanks.part.expr, .content false,
    .padded closer.characters] := hexpr
  cases hend : beforeEnd? closer.characters (dropBlanks line.toList) with
  | none =>
      rw [Option.map_none, Option.eq_none_iff_forall_ne_some]
      intro comment hextract
      rcases ((extract?_eq_some_iff_closedSplit hexpr).mp hextract).exists_inner_of_blanks with
        hbegins | ⟨found, hfound⟩
      · exact hfirst hbegins
      · rw [hend] at hfound
        cases hfound
  | some found =>
      obtain ⟨inner, closing⟩ := found
      obtain ⟨hinner, htext, after, hclosing, hafter⟩ := beforeEnd?_eq_some_iff.mp hend
      obtain ⟨c, core, rfl⟩ := List.exists_cons_of_ne_nil hinner
      have hc := isBlank_eq_false_of_dropBlanks_eq_cons htext
      have hsplit := takeWhile_append_dropBlanks line.toList
      rw [htext, ← List.append_assoc] at hsplit
      rw [Option.map_some, extract?_eq_some_iff_closedSplit hexpr]
      simp only [Comment.lastForm, String.toList_ofList]
      exact .of_core hline hsplit.symm hc (fun _ => List.mem_takeWhile_imp) hclosing hafter
        fun opening _ _ => texts_blanks_iff opening

end Rule

namespace RuleSet

open Pattern.Expr Text

variable {set : RuleSet} {line : String}

/-- Whether the rules are those of JavaScript. -/
def hasSlashStarRules (set : RuleSet) : Bool :=
  set.rules.map (fun rule => (rule.kind, rule.pattern.expr)) == [
    (.singleLine, .dividing [padded ['/', '/'], content true]),
    (.inlineBlock, .dividing [padded ['/', '*'], content false, padded ['*', '/']]),
    (.blockStart, .dividing [padded ['/', '*'], content true]),
    (.blockMiddle, .dividing [padded ['*'], content true]),
    (.blockEnd, .dividing [blanks, content false, padded ['*', '/']])] &&
  set.blockClose == some "*/"

/-- A line with a comment that ends a block has the closing token. -/
theorem closesOn_of_beforeEnd? (hclose : set.blockClose = some "*/")
    {found : List Char × List Char}
    (h : beforeEnd? ['*', '/'] (dropBlanks line.toList) = some found) :
    set.closesOn line = true := by
  obtain ⟨inner, closing⟩ := found
  have hfound : beforeEnd? Token.starSlash.characters (dropBlanks line.toList) =
    some (inner, closing) := h
  obtain ⟨-, htext, after, rfl, -⟩ := beforeEnd?_eq_some_iff.mp hfound
  refine closesOn_of_infix hclose (List.IsInfix.trans ⟨inner, after, ?_⟩
    (List.dropWhile_suffix isBlank).isInfix)
  rw [← dropBlanks, htext, List.append_assoc]
  rfl

theorem extract?_eq_scanSlashStar (hset : set.hasSlashStarRules = true)
    (hline : '\n' ∉ line.toList) : set.extract? line = scanSlashStar line.toList := by
  simp only [hasSlashStarRules, Bool.and_eq_true, beq_iff_eq, List.map_eq_cons_iff,
    List.map_eq_nil_iff, Prod.mk.injEq] at hset
  obtain ⟨⟨single, _, hrules, ⟨hsingle, hsingle'⟩, inline, _, rfl, ⟨hinline, hinline'⟩,
    start, _, rfl, ⟨hstart, hstart'⟩, middle, _, rfl, ⟨hmiddle, hmiddle'⟩,
    last, _, rfl, ⟨hlast, hlast'⟩, rfl⟩, hclose⟩ := hset
  have hrulesFor : set.rulesFor line =
      [single, inline, start, middle] ++ if set.closesOn line then [last] else [] := by
    simp [rulesFor, hrules, hsingle, hinline, hstart, hmiddle, hlast, List.filter_cons]
  have hsingle' := single.extract?_eq_map_openForm .slashes hsingle' hline
  have hinline' := inline.extract?_eq_bind_closedForm .slashStar .starSlash hinline' hline
  have hstart' := start.extract?_eq_map_openForm .slashStar hstart' hline
  have hmiddle' := middle.extract?_eq_map_openForm .star hmiddle' hline
  simp only [Token.slashes, Token.slashStar, Token.star, Token.starSlash]
    at hsingle' hinline' hstart' hmiddle'
  rw [extract?, hrulesFor, List.findSome?_append]
  simp only [List.findSome?_cons, List.findSome?_nil, hsingle', hinline', hstart', hmiddle',
    scanSlashStar]
  cases hslashes : behind? ['/', '/'] (dropBlanks line.toList) with
  | some rest => rfl
  | none =>
      cases hopen : behind? ['/', '*'] (dropBlanks line.toList) with
      | some rest => cases hend : beforeEnd? ['*', '/'] rest <;> simp [hend]
      | none =>
          cases hstar : behind? ['*'] (dropBlanks line.toList) with
          | some rest => rfl
          | none =>
              -- The closing token in front would be a star with something behind it.
              have hfirst : ¬ ['*', '/'] <+: dropBlanks line.toList := by
                rintro ⟨rest, hrest⟩
                have hbehind : behind? ['*'] (dropBlanks line.toList) = some ('/' :: rest) :=
                  behind?_eq_some_iff.mpr ⟨List.cons_ne_nil _ _, hrest.symm⟩
                rw [hstar] at hbehind
                cases hbehind
              have hlast' := last.extract?_eq_map_lastForm .starSlash hlast' hline hfirst
              simp only [Token.starSlash] at hlast'
              cases hend : beforeEnd? ['*', '/'] (dropBlanks line.toList) with
              | none => by_cases hcloses : set.closesOn line = true <;> simp [hcloses, hlast', hend]
              | some found => simp [closesOn_of_beforeEnd? hclose hend, hlast', hend]

end RuleSet

/-- Whether a declaration of the table is that of JavaScript or takes over all its rules. -/
def LanguageDecl.sharesJavaScript (decl : LanguageDecl) : Bool :=
  decl.ids.contains "javascript" ||
    decl.parent == some "javascript" && decl.singleLine.isEmpty

namespace Registry

/-- On every line of a language that has the rules of JavaScript, and of every language that is not
registered, the comment is the one that the scanner finds. -/
theorem extract?_eq_scanSlashStar_of_builtin :
    ∃ registry, Registry.builtin = .ok registry ∧ ∀ (id line : String),
      ((∃ decl ∈ builtinTable.languages, decl.sharesJavaScript = true ∧ id ∈ decl.ids) ∨
        registry.contains id = false) →
      '\n' ∉ line.toList → registry.extract? line id = scanSlashStar line.toList := by
  obtain ⟨registry, hbuiltin, hcheck⟩ := exists_builtin
    (fun registry =>
      (builtinTable.languages.all fun decl => !decl.sharesJavaScript || decl.ids.all fun id =>
        (registry.ruleSet id).hasSlashStarRules) &&
      ((registry.find? registry.fallback).getD { }).hasSlashStarRules) (by decide +kernel)
  rw [Bool.and_eq_true, List.all_eq_true] at hcheck
  obtain ⟨hshared, hfallback⟩ := hcheck
  refine ⟨registry, hbuiltin, fun id line hid hline => ?_⟩
  refine RuleSet.extract?_eq_scanSlashStar ?_ hline
  rcases hid with ⟨decl, hdecl, hshares, hid⟩ | hunknown
  · have hall := hshared decl hdecl
    rw [hshares, Bool.not_true, Bool.false_or, List.all_eq_true] at hall
    exact hall id hid
  · have hfind : registry.find? id = none := by
      simpa [contains] using hunknown
    rw [ruleSet, hfind, Option.none_or]
    exact hfallback

/-- A closing token that overlaps the opener or stands right behind it is part of the body. -/
theorem extract?_eq_scanSlashStar_of_builtin_stars :
    ∃ registry, Registry.builtin = .ok registry ∧
      registry.extract? "\u00a0/**/* x*/ \t" "kotlin" = some ⟨"\u00a0/*", "*/* x", "*/ \t"⟩ ∧
      registry.extract? "/*/ */" "cobol" = some ⟨"/*", "/", " */"⟩ := by
  obtain ⟨registry, hbuiltin, hscan⟩ := extract?_eq_scanSlashStar_of_builtin
  have hunknown : registry.contains "cobol" = false := by
    have hcheck := check_of_builtin hbuiltin (fun registry => !registry.contains "cobol")
      (by decide +kernel)
    simpa using hcheck
  refine ⟨registry, hbuiltin, ?_, ?_⟩
  · rw [hscan "kotlin" _ (Or.inl (by decide)) (by decide)]
    decide
  · rw [hscan "cobol" _ (Or.inr hunknown) (by decide)]
    decide

end Registry

end Marginalia
