import Evaluation.Grammar

namespace Evaluation

open Lib SocketStream

/-!
# The parsers compute `requestOf` and `responseOf`

Each part of the parsers is run against a stream that tracks a cursor, through the lemmas of
`Cursor.lean`; what remains is about cursors and lists of bytes.

* `word_in_line` / `word_past_line` — a word read while its line still has one, and after;
* `parseRequestLine_wraps` — the request line is accepted exactly when it has three words;
* `headerLoop_returns`, `parseBody_returns` — the header loop computes `fields`, and the body
  is what is left of it;
* `parseRequest_reads`, `parseRequest_returns`, `parseResponse_returns` — the whole.
-/

/-! ### Words and the first line -/

namespace Cursor

/-- The part of the first line that lies ahead. -/
def lineAhead (c : Cursor) : Bytes := (firstLine c.text).drop c.pos

/-- The text is its first line, and then nothing or a newline and the rest. -/
theorem text_cases (S : Bytes) :
    (newline ∉ S ∧ firstLine S = S ∧ afterFirstLine S = []) ∨
      (newline ∈ S ∧ S = firstLine S ++ newline :: afterFirstLine S) := by
  rcases line_cases newline S with h | h
  · exact .inl h
  · refine .inr ⟨?_, h⟩
    rw [h]
    exact List.mem_append_right _ (List.mem_cons_self ..)

/-- Up to the end of the first line, what lies ahead starts with the rest of that line. -/
theorem rest_eq {c : Cursor} (h : c.pos ≤ (firstLine c.text).length) :
    ∃ t, c.rest = c.lineAhead ++ t ∧ c.text = firstLine c.text ++ t ∧
      (∀ b ∈ t.head?, isspace b = true) ∧ (newline ∈ c.text ↔ t ≠ []) := by
  rcases text_cases c.text with ⟨hnl, hline, _⟩ | ⟨hnl, htext⟩
  · refine ⟨[], ?_, ?_, by simp, by simp [hnl]⟩
    · rw [rest, lineAhead, hline, List.append_nil]
    · rw [hline, List.append_nil]
  · refine ⟨newline :: afterFirstLine c.text, ?_, htext, by simp, by simp [hnl]⟩
    rw [rest, lineAhead]
    conv_lhs => rw [htext]
    rw [List.drop_append_of_le_length h]

/-- `nextWord` takes the first word off what lies ahead. -/
theorem rest_afterWord (c : Cursor) : c.afterWord.rest = afterFirstWord c.rest := by
  show c.text.drop (c.pos + _ + _) = _
  rw [← List.drop_drop, ← List.drop_drop]
  show (c.rest.drop _).drop _ = _
  rw [drop_length_takeWhile, word, drop_length_takeWhile]
  rfl

/-- **A word in the line.** While the first line has a word ahead, `nextWord` gives that word
    and stays in the line. -/
theorem word_in_line {c : Cursor} (hpos : c.pos ≤ (firstLine c.text).length)
    (hw : tokens c.lineAhead ≠ []) :
    c.word = firstWord c.lineAhead ∧ c.afterWord.pos ≤ (firstLine c.text).length ∧
      c.afterWord.lineAhead = afterFirstWord c.lineAhead ∧
      c.rest.takeWhile isspace = c.lineAhead.takeWhile isspace := by
  obtain ⟨t, hrest, -, ht, -⟩ := rest_eq hpos
  have hne : c.lineAhead.dropWhile isspace ≠ [] := fun hnil => hw (words_eq_nil_iff.mpr hnil)
  -- The blanks and the word are those of the line.
  have hblanks : c.rest.takeWhile isspace = c.lineAhead.takeWhile isspace := by
    rw [hrest, List.takeWhile_append]
    refine if_neg fun hlen => hne ?_
    rw [← drop_length_takeWhile, hlen, List.drop_length]
  have hdrop : c.rest.dropWhile isspace = c.lineAhead.dropWhile isspace ++ t := by
    rw [hrest, List.dropWhile_append, if_neg]
    simpa using hne
  have hw' : c.word = firstWord c.lineAhead := by
    rw [word, hdrop, firstWord]
    conv_lhs => rw [← List.takeWhile_append_dropWhile (p := fun b => !isspace b)
      (l := c.lineAhead.dropWhile isspace), List.append_assoc]
    refine takeWhile_append_of_head
      (fun a ha => List.mem_takeWhile_imp (p := fun b => !isspace b) ha) fun a ha => ?_
    cases hd : (c.lineAhead.dropWhile isspace).dropWhile fun b => !isspace b with
    | nil =>
      rw [hd, List.nil_append] at ha
      rw [ht a ha]
      rfl
    | cons b r =>
      have hb := head_dropWhile (fun b => !isspace b) (c.lineAhead.dropWhile isspace) b
        (by rw [hd]; rfl)
      rw [hd] at ha
      obtain rfl : b = a := by simpa using ha
      exact hb
  have hsplit : c.lineAhead.drop ((c.lineAhead.takeWhile isspace).length
      + (firstWord c.lineAhead).length) = afterFirstWord c.lineAhead := by
    rw [← List.drop_drop, drop_length_takeWhile, firstWord, drop_length_takeWhile]
    rfl
  have hle : (c.lineAhead.takeWhile isspace).length + (firstWord c.lineAhead).length
      ≤ c.lineAhead.length := by
    have h1 := congrArg List.length
      (List.takeWhile_append_dropWhile (p := isspace) (l := c.lineAhead))
    have h2 : (firstWord c.lineAhead).length ≤ (c.lineAhead.dropWhile isspace).length :=
      (List.takeWhile_prefix _).length_le
    rw [List.length_append] at h1
    omega
  have hlen : c.lineAhead.length = (firstLine c.text).length - c.pos := List.length_drop
  have hafter : c.afterWord.pos = c.pos + ((c.lineAhead.takeWhile isspace).length
      + (firstWord c.lineAhead).length) := by
    show c.pos + _ + _ = _
    rw [hblanks, hw', Nat.add_assoc]
  refine ⟨hw', by omega, ?_, hblanks⟩
  rw [lineAhead, afterWord_text, hafter, ← List.drop_drop]
  exact hsplit

/-- **No word in the line.** When the first line has no word ahead, `nextWord` leaves the line,
    or finds nothing at all when the line is the last. -/
theorem word_past_line {c : Cursor} (hpos : c.pos ≤ (firstLine c.text).length)
    (hw : tokens c.lineAhead = []) :
    (newline ∈ c.text →
      (firstLine c.text).length < c.pos + (c.rest.takeWhile isspace).length) ∧
      (newline ∉ c.text → c.word = [] ∧ c.afterWord.pos ≤ (firstLine c.text).length ∧
        tokens c.afterWord.lineAhead = []) := by
  obtain ⟨t, hrest, htext, ht, hnl⟩ := rest_eq hpos
  have hall : ∀ b ∈ c.lineAhead, isspace b = true :=
    List.dropWhile_eq_nil_iff.mp (words_eq_nil_iff.mp hw)
  have hlen : c.lineAhead.length = (firstLine c.text).length - c.pos := List.length_drop
  constructor
  · intro hmem
    -- The newline is a blank too, so the blanks reach beyond the line.
    obtain ⟨b, t, rfl⟩ := List.exists_cons_of_ne_nil (hnl.mp hmem)
    have hb : isspace b = true := ht b (by simp)
    have hblanks : c.lineAhead.length + 1 ≤ (c.rest.takeWhile isspace).length := by
      rw [hrest, List.takeWhile_append_of_pos hall, List.takeWhile_cons_of_pos hb,
        List.length_append, List.length_cons]
      omega
    omega
  · intro hmem
    -- The line is the last, and there is nothing but blanks in it.
    obtain rfl : t = [] := by
      by_contra hne
      exact hmem (hnl.mpr hne)
    rw [List.append_nil] at hrest htext
    have hword : c.word = [] := by
      rw [word, hrest, dropWhile_of_all hall, List.takeWhile_nil]
    have hafter : c.afterWord.pos = (firstLine c.text).length := by
      show c.pos + (c.rest.takeWhile isspace).length + c.word.length = _
      rw [hword, hrest, takeWhile_of_all hall, hlen, List.length_nil]
      omega
    refine ⟨hword, hafter.le, ?_⟩
    rw [lineAhead, afterWord_text, hafter, List.drop_length]
    rfl

/-- With no word ahead in the line, the cursor leaves the line with the blanks it passes over,
    or finds nothing and stays at the end of the text. -/
theorem word_past_line_cases {c : Cursor} (hpos : c.pos ≤ (firstLine c.text).length)
    (hw : tokens c.lineAhead = []) :
    (newline ∈ c.text ∧ (firstLine c.text).length < c.pos + (c.rest.takeWhile isspace).length) ∨
      (c.word = [] ∧ c.afterWord.pos ≤ (firstLine c.text).length ∧
        tokens c.afterWord.lineAhead = []) := by
  obtain ⟨hin, hout⟩ := word_past_line hpos hw
  by_cases hnl : newline ∈ c.text
  · exact .inl ⟨hnl, hin hnl⟩
  · exact .inr (hout hnl)

/-- One call of `nextWord`, from within the first line: it takes the next word of the line, or
    leaves the line, or finds nothing at the end of the text. -/
theorem word_cases {c : Cursor} (hpos : c.pos ≤ (firstLine c.text).length) :
    (c.afterWord.pos ≤ (firstLine c.text).length ∧ c.word = firstWord c.lineAhead ∧
      c.afterWord.lineAhead = afterFirstWord c.lineAhead ∧ tokens c.lineAhead ≠ []) ∨
    (tokens c.lineAhead = [] ∧ newline ∈ c.text ∧
      (firstLine c.text).length < c.pos + (c.rest.takeWhile isspace).length) ∨
    (tokens c.lineAhead = [] ∧ c.word = [] ∧ c.afterWord.pos ≤ (firstLine c.text).length ∧
      tokens c.afterWord.lineAhead = []) := by
  by_cases hw : tokens c.lineAhead = []
  · rcases word_past_line_cases hpos hw with h | h
    · exact .inr (.inl ⟨hw, h⟩)
    · exact .inr (.inr ⟨hw, h⟩)
  · obtain ⟨hword, hpos', hahead, _⟩ := word_in_line hpos hw
    exact .inl ⟨hpos', hword, hahead, hw⟩

/-- **Three words.** Either the first line has three words or more, and two calls read the
    first two of them and stay in the line; or it has fewer, and the third call finds nothing
    or starts its word behind the line. -/
theorem three_words (c : Cursor) (hpos : c.pos ≤ (firstLine c.text).length) :
    (3 ≤ (tokens c.lineAhead).length ∧ c.word = firstWord c.lineAhead ∧
      c.afterWord.word = firstWord (afterFirstWord c.lineAhead) ∧
      c.afterWord.afterWord.pos ≤ (firstLine c.text).length ∧
      c.afterWord.afterWord.lineAhead = afterFirstWord (afterFirstWord c.lineAhead) ∧
      tokens c.afterWord.afterWord.lineAhead ≠ []) ∨
    ((tokens c.lineAhead).length < 3 ∧ (c.afterWord.afterWord.word = [] ∨
      newline ∈ c.text ∧ (firstLine c.text).length <
        c.afterWord.afterWord.pos + (c.afterWord.afterWord.rest.takeWhile isspace).length)) := by
  have hstart : ∀ d : Cursor, d.pos + (d.rest.takeWhile isspace).length ≤ d.afterWord.pos := by
    intro d
    show _ ≤ d.pos + _ + _
    omega
  have h1 := hstart c
  have h2 := hstart c.afterWord
  -- Behind two calls that have stayed in the line, with no word left in it.
  have third : c.afterWord.afterWord.pos ≤ (firstLine c.text).length →
      tokens c.afterWord.afterWord.lineAhead = [] → c.afterWord.afterWord.word = [] ∨
        newline ∈ c.text ∧ (firstLine c.text).length <
          c.afterWord.afterWord.pos + (c.afterWord.afterWord.rest.takeWhile isspace).length := by
    intro hpos2 hnone
    rcases word_past_line_cases (c := c.afterWord.afterWord) hpos2 hnone with h | ⟨h, _⟩
    · exact .inr h
    · exact .inl h
  rcases word_cases hpos with
    ⟨hpos1, hw1, hahead1, hne1⟩ | ⟨hnil, hnl, hlt⟩ | ⟨hnil, _, hpos1, hnil1⟩
  · rcases word_cases (c := c.afterWord) hpos1 with
      ⟨hpos2, hw2, hahead2, hne2⟩ | ⟨hnil2, hnl, hlt⟩ | ⟨hnil2, _, hpos2, hnil3⟩
    · rw [hahead1] at hw2 hahead2 hne2
      by_cases hnone : tokens c.afterWord.afterWord.lineAhead = []
      · refine .inr ⟨?_, third hpos2 hnone⟩
        rw [hahead2] at hnone
        rw [tokens_step hne1, tokens_step hne2, hnone]
        simp
      · refine .inl ⟨?_, hw1, hw2, hpos2, hahead2, hnone⟩
        rw [hahead2] at hnone
        rw [tokens_step hne1, tokens_step hne2, tokens_step hnone]
        simp
    · refine .inr ⟨?_, .inr ⟨hnl, ?_⟩⟩
      · rw [hahead1] at hnil2
        rw [tokens_step hne1, hnil2]
        simp
      · rw [afterWord_text] at hlt
        omega
    · refine .inr ⟨?_, third hpos2 hnil3⟩
      rw [hahead1] at hnil2
      rw [tokens_step hne1, hnil2]
      simp
  · exact .inr ⟨by simp [hnil], .inr ⟨hnl, by omega⟩⟩
  · refine .inr ⟨by simp [hnil], ?_⟩
    rcases word_past_line_cases (c := c.afterWord) hpos1 hnil1 with ⟨hnl, hlt⟩ | ⟨_, hpos2, hnil2⟩
    · refine .inr ⟨hnl, ?_⟩
      rw [afterWord_text] at hlt
      omega
    · exact third hpos2 hnil2

/-- What three calls of `nextWord` find from the start of a text: the first three words of its
    first line, or, when the line has fewer, nothing or a word behind the line. -/
theorem words_read (S : Bytes) :
    (tokens (firstLine S) = (Cursor.mk S 0).word :: (Cursor.mk S 0).afterWord.word ::
        (Cursor.mk S 0).afterWord.afterWord.word ::
          tokens (Cursor.mk S 0).afterWord.afterWord.afterWord.lineAhead ∧
      (Cursor.mk S 0).afterWord.afterWord.afterWord.pos ≤ (firstLine S).length) ∨
    ((tokens (firstLine S)).length < 3 ∧ ((Cursor.mk S 0).afterWord.afterWord.word = [] ∨
      newline ∈ S ∧
        (firstLine S).length < (Cursor.mk S 0).afterWord.afterWord.afterWord.pos)) := by
  have hthree := three_words (Cursor.mk S 0) (Nat.zero_le _)
  rw [show (Cursor.mk S 0).lineAhead = firstLine S from rfl] at hthree
  rcases hthree with ⟨hmany, hword1, hword2, hpos2, hahead2, hne2⟩ | ⟨hfew, hgone⟩
  · obtain ⟨hword3, hpos3, hahead3, _⟩ := word_in_line hpos2 hne2
    refine .inl ⟨?_, hpos3⟩
    rw [hword3, hahead3, hahead2, hword1, hword2]
    exact tokens_three hmany
  · refine .inr ⟨hfew, hgone.imp_right fun ⟨hnl, hlt⟩ => ⟨hnl, lt_of_lt_of_le hlt ?_⟩⟩
    exact Nat.le_add_right ..

/-- The line ahead is what stands ahead up to the next newline. -/
theorem lineOf_rest {c : Cursor} (hpos : c.pos ≤ (firstLine c.text).length) :
    lineOf newline c.rest = c.lineAhead := by
  have hnotmem : newline ∉ c.lineAhead := fun hmem =>
    not_mem_lineOf newline c.text (List.mem_of_mem_drop hmem)
  obtain ⟨t, hrest, htext, -, hnl⟩ := rest_eq hpos
  rcases text_cases c.text with ⟨hno, _⟩ | ⟨_, hS⟩
  · obtain rfl : t = [] := by
      by_contra hne
      exact hno (hnl.mpr hne)
    rw [hrest, List.append_nil, lineOf_of_not_mem hnotmem]
  · have ht : t = newline :: afterFirstLine c.text :=
      List.append_cancel_left (htext.symm.trans hS)
    rw [hrest, ht, lineOf_append_cons hnotmem]

/-- **The rest of the line.** `nextLine` called within the first line reads the rest of it and
    moves behind its newline; blanks that it is asked to pass over must end in the line. -/
theorem nextLine_in_line (skipWhitespace : Bool) {c : Cursor}
    (hpos : c.pos ≤ (firstLine c.text).length)
    (hword : skipWhitespace = true → tokens c.lineAhead ≠ []) :
    c.nextLine skipWhitespace = .ok
      (SocketStream.popCR (if skipWhitespace then c.lineAhead.dropWhile isspace else c.lineAhead),
        ⟨c.text, (firstLine c.text).length + 1⟩) := by
  have hline := length_firstLine_le c.text
  have hlen : c.lineAhead.length = (firstLine c.text).length - c.pos := List.length_drop
  rw [nextLine, guarded_of_le (by omega)]
  cases skipWhitespace with
  | false =>
    have hend : c.pos + ((firstLine c.text).length - c.pos) = (firstLine c.text).length := by omega
    simp only [Bool.false_eq_true, if_false, List.length_nil, List.drop_zero, Nat.add_zero,
      lineOf_rest hpos, hlen, hend]
  | true =>
    obtain ⟨t, hrest, -, -, -⟩ := rest_eq hpos
    obtain ⟨-, -, -, hblanks⟩ := word_in_line hpos (hword rfl)
    have hle := (List.takeWhile_prefix (l := c.lineAhead) isspace).length_le
    -- A cursor moved on by `n` bytes is in the line as well.
    have hmoved : ∀ n ≤ c.lineAhead.length,
        lineOf newline (c.rest.drop n) = c.lineAhead.drop n := by
      intro n hn
      have h := lineOf_rest (c := ⟨c.text, c.pos + n⟩)
        (show c.pos + n ≤ (firstLine c.text).length by omega)
      simp only [rest, lineAhead, ← List.drop_drop] at h
      exact h
    have hend : c.pos + (c.lineAhead.takeWhile isspace).length
        + (c.lineAhead.dropWhile isspace).length = (firstLine c.text).length := by
      have hsplit := congrArg List.length
        (List.takeWhile_append_dropWhile (p := isspace) (l := c.lineAhead))
      rw [List.length_append] at hsplit
      omega
    simp only [if_true, hblanks, hmoved _ hle, drop_length_takeWhile, hend]

end Cursor

/-! ### The request line -/

/-- A stream that reads on: it tracks a cursor in the same text. -/
theorem nextWord_tracks {s : SocketStream} {c : Cursor} (h : Tracks s c)
    (hpos : c.pos ≤ c.text.length) (hend : c.afterWord.pos < 2 ^ 32) :
    ∃ s', nextWord.Returns s (.ok c.word s') ∧ Tracks s' c.afterWord :=
  nextWord_returns h (Cursor.guarded_of_le hpos _) hend

/-- Behind three words the rest of the first line is read; a fourth word refuses the request, and
    so does a method that is unknown. -/
theorem restOfLine_returns {s : SocketStream} {c : Cursor} (h : Tracks s c)
    (hpos : c.pos ≤ (firstLine c.text).length) (hline : (firstLine c.text).length < 2 ^ 32)
    {method resource version : Bytes}
    (htokens : tokens (firstLine c.text) = method :: resource :: version :: tokens c.lineAhead) :
    ∃ s', (do
        let line ← nextLine false
        if line.any fun c => !isspace c then pure none
        else if Method.stringToMethod method = .UNKNOWN then pure none
        else pure (some (Method.stringToMethod method, resource, version)) :
          StreamM (Option (Method × Bytes × Bytes))).Returns s
        (.ok (requestLineOf (firstLine c.text)) s') ∧
      Tracks s' (Cursor.mk c.text ((firstLine c.text).length + 1)).wrap := by
  have hnext := Cursor.nextLine_in_line false hpos nofun
  rw [if_neg Bool.false_ne_true] at hnext
  obtain ⟨s', hret, htr⟩ := nextLine_wraps h hnext hline
  have hany : ((popCR c.lineAhead).any fun c => !isspace c) = !c.lineAhead.all isspace := by
    rw [any_not_eq_not_all, all_popCR]
  refine ⟨s', ?_, htr⟩
  rw [Prog.returns_bind_of_ok hret, hany, requestLineOf, htokens]
  -- The line has three words if and only if only blanks stand behind the third.
  cases hws : tokens c.lineAhead with
  | nil =>
    rw [tokens_eq_nil_iff.mp hws]
    by_cases hunk : Method.stringToMethod method = .UNKNOWN <;> simp [hunk]
  | cons w ws =>
    have hall : c.lineAhead.all isspace = false := by
      rw [Bool.eq_false_iff]
      intro hall
      rw [tokens_eq_nil_iff.mpr hall] at hws
      cases hws
    rw [hall]
    simp

/-- The check that `parseRequestLine` makes behind its three calls of `nextWord` refuses the lines
    of fewer than three words. -/
theorem wordsCheck_iff {S : Bytes} (hline : (firstLine S).length < 2 ^ 32) :
    (find (Cursor.mk S 0).afterWord.afterWord.afterWord.passedBuffer newline ≠ npos ∨
        (Cursor.mk S 0).afterWord.word.isEmpty = true ∨
        (Cursor.mk S 0).afterWord.afterWord.word.isEmpty = true) ↔
      (tokens (firstLine S)).length < 3 := by
  rcases Cursor.words_read S with ⟨htokens, hpos⟩ | ⟨hfew, hgone⟩
  · -- Three words in the line: none is empty, and no newline has been passed over.
    have hne : ∀ w ∈ [(Cursor.mk S 0).afterWord.word, (Cursor.mk S 0).afterWord.afterWord.word],
        w.isEmpty = false := by
      intro w hw
      have hmem : w ∈ tokens (firstLine S) := by
        rw [htokens]
        rcases List.mem_pair.mp hw with heq | heq
        · exact heq ▸ List.mem_cons_of_mem _ List.mem_cons_self
        · exact heq ▸ List.mem_cons_of_mem _ (List.mem_cons_of_mem _ List.mem_cons_self)
      exact List.isEmpty_eq_false_iff.mpr (of_mem_words hmem).1
    have hfind :
        find (Cursor.mk S 0).afterWord.afterWord.afterWord.passedBuffer newline = npos := by
      rw [Cursor.passedBuffer]
      exact find_take_of_le hpos
    simp [hfind, hne _ (List.mem_cons_self ..),
      hne _ (List.mem_cons_of_mem _ (List.mem_cons_self ..)), htokens]
  · -- A word is missing, or the search for it has passed over the newline.
    refine iff_of_true ?_ hfew
    rcases hgone with hempty | ⟨hnl, hlt⟩
    · exact .inr (.inr (by rw [hempty]; rfl))
    · refine .inl ?_
      rw [Cursor.passedBuffer]
      show find (S.take _) newline ≠ npos
      rw [find_take hlt hnl, npos]
      omega

/-- **The request line** is accepted exactly when it is made of three words, the first the name
    of a method; the cursor then stands behind the line, and its last `++` may wrap. -/
theorem parseRequestLine_wraps {s : SocketStream} {S : Bytes} (h : Tracks s ⟨S, 0⟩)
    (hwords : (Cursor.mk S 0).afterWord.afterWord.afterWord.pos < 2 ^ 32)
    (hline : (firstLine S).length < 2 ^ 32) :
    ∃ s', parseRequestLine.Returns s (.ok (requestLineOf (firstLine S)) s') ∧
      (requestLineOf (firstLine S) ≠ none →
        Tracks s' (Cursor.mk S ((firstLine S).length + 1)).wrap) := by
  have hle0 : (Cursor.mk S 0).pos ≤ (Cursor.mk S 0).text.length := Nat.zero_le _
  have hle1 := Cursor.afterWord_pos_le hle0
  have hle2 := Cursor.afterWord_pos_le hle1
  have hmono1 := (Cursor.mk S 0).afterWord.pos_le_afterWord
  have hmono2 := (Cursor.mk S 0).afterWord.afterWord.pos_le_afterWord
  -- The three words and what has been passed over.
  obtain ⟨s1, hret1, htr1⟩ := nextWord_tracks h hle0 (by omega)
  obtain ⟨s2, hret2, htr2⟩ := nextWord_tracks htr1 hle1 (by omega)
  obtain ⟨s3, hret3, htr3⟩ := nextWord_tracks htr2 hle2 hwords
  have hret4 := passedBuffer_returns htr3
  unfold parseRequestLine
  simp only [Prog.returns_bind_of_ok hret1, Prog.returns_bind_of_ok hret2,
    Prog.returns_bind_of_ok hret3, Prog.returns_bind_of_ok hret4]
  by_cases hfew : (tokens (firstLine S)).length < 3
  · have hnone : requestLineOf (firstLine S) = none := by
      unfold requestLineOf
      split
      · rename_i heq
        rw [heq] at hfew
        simp at hfew
      · rfl
    refine ⟨s3, ?_, fun hne => absurd hnone hne⟩
    rw [if_pos ((wordsCheck_iff hline).mpr hfew), hnone]
    exact (Prog.returns_pure _ _ _).mpr rfl
  · obtain ⟨htokens, hpos⟩ := (Cursor.words_read S).resolve_right fun h => hfew h.1
    obtain ⟨s4, hret5, htr4⟩ := restOfLine_returns htr3 hpos hline htokens
    refine ⟨s4, ?_, fun _ => htr4⟩
    rw [if_neg fun hcheck => hfew ((wordsCheck_iff hline).mp hcheck)]
    exact hret5

/-! ### The header lines -/

/-- Cutting a line at its colon with `find`, `substr` and the loop over the blanks. -/
theorem field_of_line {line : Bytes} (hcolon : colon ∈ line) :
    substr line 0 (find line colon) = .ok (lineOf colon line) ∧
      substr line (skipBlanks line (find line colon + 1)) line.length
        = .ok ((afterLine colon line).dropWhile isspace) := by
  -- The name, the first colon, and what stands behind it.
  obtain ⟨a, b, rfl, ha⟩ := List.eq_append_cons_of_mem hcolon
  have hdrop : (a ++ colon :: b).drop (a.length + 1) = b := by
    rw [← List.drop_drop, List.drop_left, List.drop_one, List.tail_cons]
  have hblanks := (List.takeWhile_prefix (l := b) isspace).length_le
  rw [find_of_mem hcolon, lineOf_append_cons ha, afterLine_append_cons ha]
  constructor
  · rw [substr, if_pos (Nat.zero_le _), List.drop_zero, List.take_left]
  · rw [skipBlanks, hdrop, substr, if_pos, ← List.drop_drop, hdrop, drop_length_takeWhile,
      List.take_of_length_le]
    · have hle := (List.dropWhile_suffix (l := b) isspace).length_le
      rw [List.length_append, List.length_cons]
      omega
    · rw [List.length_append, List.length_cons]
      omega

/-- No colon is found if and only if there is none. -/
theorem find_eq_npos_iff {line : Bytes} (hlen : line.length < npos) :
    find line colon = npos ↔ colon ∉ line := by
  constructor
  · intro h hmem
    rw [find_of_mem hmem] at h
    have hle : (lineOf colon line).length ≤ line.length := (List.takeWhile_prefix _).length_le
    omega
  · exact find_of_not_mem

/-- Where the cursor stands behind a line. -/
def behindLineAt (c : Cursor) : Cursor := ⟨c.text, c.pos + (firstLine c.rest).length + 1⟩

/-- What lies ahead behind a line is what stands behind it. -/
theorem behindLineAt_rest (c : Cursor) : (behindLineAt c).rest = afterFirstLine c.rest := by
  show c.text.drop (c.pos + (firstLine c.rest).length + 1) = _
  rw [Nat.add_assoc, ← List.drop_drop]
  exact drop_length_lineOf newline c.rest

/-- With a byte other than a blank ahead the cursor is not at the end, and `hasNext` says so. -/
theorem hasNext_of_visible {c : Cursor} (hblank : c.rest.all isspace = false) :
    c.hasNext = true ∧ c.pos ≤ c.text.length := by
  constructor
  · rw [Cursor.hasNext, any_not_eq_not_all, hblank]
    rfl
  · by_contra hlt
    have hnil : c.rest = [] := List.drop_eq_nil_of_le (by omega)
    rw [hnil] at hblank
    cases hblank

/-- `nextLine` gives the line ahead and goes behind it. -/
theorem nextLine_behind {c : Cursor} (hpos : c.pos ≤ c.text.length) :
    c.nextLine false = .ok (popCR (firstLine c.rest), behindLineAt c) := by
  rw [Cursor.nextLine, Cursor.guarded_of_le hpos]
  simp only [Bool.false_eq_true, if_false, List.length_nil, List.drop_zero, Nat.add_zero]
  rfl

/-- One round of the header loop on a stream that tracks a cursor with a byte other than a
    blank ahead: it reads the line and adds its field, or stops behind it. -/
theorem headerRound_returns {s : SocketStream} {c : Cursor} (hs : Headers) (h : Tracks s c)
    (hblank : c.rest.all isspace = false)
    (hskip : c.pos + (c.rest.takeWhile isspace).length < 2 ^ 32)
    (hline : (behindLineAt c).pos ≤ 2 ^ 32) :
    ∃ s', Tracks s' (behindLineAt c).wrap ∧
      (headerRound hs).Returns s (.ok (match splitField (popCR (firstLine c.rest)) with
        | none => .inr hs
        | some f => .inl (hs.insert f.1 f.2)) s') := by
  obtain ⟨hnext, hpos⟩ := hasNext_of_visible hblank
  have hread := nextLine_behind hpos
  obtain ⟨s1, hret1, htr1⟩ := hasNext_returns h hskip
  obtain ⟨s2, hret2, htr2⟩ := nextLine_wraps htr1 hread hline
  refine ⟨s2, htr2, ?_⟩
  unfold headerRound
  rw [Prog.returns_bind_of_ok hret1, hnext]
  simp only [if_true]
  rw [Prog.returns_bind_of_ok hret2]
  -- The three kinds of lines.
  have hlen : (popCR (firstLine c.rest)).length < npos := by
    have hle := length_popCR_le (firstLine c.rest)
    have hbound : c.pos + (firstLine c.rest).length + 1 ≤ 2 ^ 32 := hline
    rw [npos]
    omega
  generalize popCR (firstLine c.rest) = line at *
  by_cases hnil : line = []
  · subst hnil
    rw [List.isEmpty_nil, if_pos rfl]
    exact (Prog.returns_pure _ _ _).mpr rfl
  rw [if_neg (by simpa using hnil)]
  by_cases hcolon : colon ∈ line
  · obtain ⟨hname, hvalue⟩ := field_of_line hcolon
    have hfind : ¬ find line colon = npos := fun h => (find_eq_npos_iff hlen).mp h hcolon
    simp only [hfind, if_false, hname, hvalue, splitField, hcolon, if_true,
      returns_ofExcept_ok_bind, Prog.returns_pure]
  · simp only [(find_eq_npos_iff hlen).mpr hcolon, if_true, splitField, hcolon, if_false]
    exact (Prog.returns_pure _ _ _).mpr rfl

/-- A round of the header loop with only blanks ahead ends it. -/
theorem headerRound_blank {s : SocketStream} {c : Cursor} (hs : Headers) (h : Tracks s c)
    (hblank : c.rest.all isspace = true)
    (hskip : c.pos + (c.rest.takeWhile isspace).length < 2 ^ 32) :
    ∃ s', (headerRound hs).Returns s (.ok (.inr hs) s') ∧ Tracks s' c := by
  obtain ⟨s1, hret1, htr1⟩ := hasNext_returns h hskip
  have hnext : c.hasNext = false := by
    rw [Cursor.hasNext, any_not_eq_not_all, hblank]
    rfl
  refine ⟨s1, ?_, htr1⟩
  unfold headerRound
  rw [Prog.returns_bind_of_ok hret1, hnext]
  exact (Prog.returns_pure _ _ _).mpr rfl

/-- A newline ends every line that the header loop reads, so that its cursor never passes the end
    of the text. -/
def LinesEnd (hs : Headers) (T : Bytes) : Prop :=
  (∀ b ∈ T.getLast?, b = newline) ∨ (fields hs T).2 ≠ []

/-- In front of nothing there are no headers left to read. -/
theorem fields_nil (hs : Headers) : fields hs [] = (hs, []) := fields_blank rfl hs

/-- A line that is read then has its newline. -/
theorem newline_mem_of_linesEnd {hs : Headers} {T : Bytes} (h : LinesEnd hs T)
    (hblank : T.all isspace = false) : newline ∈ T := by
  have hne : T ≠ [] := by
    rintro rfl
    cases hblank
  rcases h with hlast | hrest
  · rw [← hlast (T.getLast hne) (List.getLast?_eq_some_getLast hne)]
    exact List.getLast_mem hne
  · by_contra hno
    have hafter : afterFirstLine T = [] := afterLine_of_not_mem hno
    refine hrest ?_
    cases hsplit : splitField (popCR (firstLine T)) with
    | none => rw [fields_noColon hblank hsplit, hafter]
    | some f => rw [fields_field hblank hsplit, hafter, fields_nil]

/-- Behind a header line the lines still end. -/
theorem linesEnd_next {hs : Headers} {T : Bytes} {f : Field} (h : LinesEnd hs T)
    (hblank : T.all isspace = false) (hsplit : splitField (popCR (firstLine T)) = some f) :
    LinesEnd (hs.insert f.1 f.2) (afterFirstLine T) := by
  unfold LinesEnd
  rw [← fields_field hblank hsplit]
  refine h.imp_left fun hlast b hb => hlast b ?_
  rcases Cursor.text_cases T with ⟨-, -, hnil⟩ | ⟨-, htext⟩
  · rw [hnil] at hb
    cases hb
  · rw [htext, List.getLast?_append, List.getLast?_cons, Option.mem_def.mp hb]
    rfl

/-- **The header loop** computes `fields` of what lies ahead. -/
theorem headerLoop_returns {s : SocketStream} {c : Cursor} (hs : Headers) (h : Tracks s c)
    (hlen : c.text.length < 2 ^ 32)
    (hend : c.text.length + 1 < 2 ^ 32 ∨ LinesEnd hs c.rest) :
    ∃ s' c', (Prog.loop headerRound hs).Returns s (.ok (fields hs c.rest).1 s') ∧
      Tracks s' c' ∧ c'.text = c.text ∧ c'.rest = (fields hs c.rest).2 := by
  have hpos32 : c.pos < 2 ^ 32 := h.pos_lt
  -- Induction on the bytes ahead: a round that goes on has read a line.
  induction hn : c.rest.length using Nat.strong_induction_on generalizing s c hs with
  | _ n ih =>
    have hrest : c.rest.length = c.text.length - c.pos := List.length_drop
    have hblanks := (List.takeWhile_prefix (l := c.rest) isspace).length_le
    cases hblank : c.rest.all isspace with
    | true =>
      obtain ⟨s', hret, htr⟩ := headerRound_blank hs h hblank (by omega)
      rw [fields_blank hblank]
      exact ⟨s', c, Prog.returns_loop_of_done hret, htr, rfl, rfl⟩
    | false =>
      have hne : c.rest ≠ [] := by
        intro hnil
        rw [hnil] at hblank
        cases hblank
      have hpos := List.length_pos_of_ne_nil hne
      have hline : (behindLineAt c).pos < 2 ^ 32 := by
        show c.pos + (firstLine c.rest).length + 1 < 2 ^ 32
        have hle := length_firstLine_le c.rest
        rcases hend with hshort | hlines
        · omega
        · have hlt := length_firstLine_lt (newline_mem_of_linesEnd hlines hblank)
          omega
      obtain ⟨s1, htr1, hret⟩ :=
        headerRound_returns hs h hblank (by omega) (Nat.le_of_lt hline)
      rw [Cursor.wrap_of_lt hline] at htr1
      have hrest1 := behindLineAt_rest c
      cases hsplit : splitField (popCR (firstLine c.rest)) with
      | none =>
        rw [hsplit] at hret
        rw [fields_noColon hblank hsplit]
        exact ⟨s1, behindLineAt c, Prog.returns_loop_of_done hret, htr1, rfl, hrest1⟩
      | some f =>
        rw [hsplit] at hret
        rw [fields_field hblank hsplit, ← hrest1]
        have hlt : (behindLineAt c).rest.length < n := by
          rw [hrest1, ← hn]
          exact length_afterLine_lt hne
        have hend1 : c.text.length + 1 < 2 ^ 32 ∨
            LinesEnd (hs.insert f.1 f.2) (behindLineAt c).rest := by
          rw [hrest1]
          exact hend.imp_right fun hlines => linesEnd_next hlines hblank hsplit
        obtain ⟨s', c', hret', htr', htext', hrest'⟩ :=
          ih _ hlt (hs.insert f.1 f.2) htr1 hlen hend1 hline rfl
        exact ⟨s', c', (Prog.returns_loop_of_next hret _).mpr hret', htr', htext', hrest'⟩

/-- **The body** is what is left, unless that is only blanks. -/
theorem parseBody_returns {s : SocketStream} {c : Cursor} (h : Tracks s c)
    (hlen : c.text.length < 2 ^ 32) (hskip : c.pos + (c.rest.takeWhile isspace).length < 2 ^ 32) :
    ∃ s', parseBody.Returns s (.ok (bodyOf c.rest) s') := by
  obtain ⟨s1, hret1, htr1⟩ := hasNext_returns h hskip
  unfold parseBody bodyOf
  rw [Cursor.hasNext, any_not_eq_not_all] at hret1
  cases hblank : c.rest.all isspace with
  | true =>
    rw [hblank] at hret1
    refine ⟨s1, ?_⟩
    rw [Prog.returns_bind_of_ok hret1]
    exact (Prog.returns_pure _ _ _).mpr rfl
  | false =>
    rw [hblank] at hret1
    obtain ⟨-, hpos⟩ := hasNext_of_visible hblank
    obtain ⟨s2, hret2, _⟩ := remaining_returns htr1 (Cursor.guarded_of_le hpos _) hlen
    refine ⟨s2, ?_⟩
    rw [Prog.returns_bind_of_ok hret1]
    exact hret2

/-! ### The status line -/

/-- A status line with fewer than three words has no status, or no code. -/
theorem statusOf_few {line : Bytes} (h : (tokens line).length < 3) : statusOf line = none := by
  have hblank : (afterFirstWord (afterFirstWord line)).dropWhile isspace = [] := by
    refine words_eq_nil_iff.mp (List.eq_nil_of_length_eq_zero ?_)
    show (tokens (afterFirstWord (afterFirstWord line))).length = 0
    rw [tokens_afterFirstWord, tokens_afterFirstWord, List.length_tail, List.length_tail]
    omega
  unfold statusOf
  simp only [hblank, popCR_nil, or_true, if_true]
  split <;> rfl

namespace Cursor

/-- Where the line ends in which the first byte ahead stands that is no blank. -/
def visibleLineEnd (c : Cursor) : ℕ :=
  c.pos + (c.rest.takeWhile isspace).length + (lineOf newline (c.rest.dropWhile isspace)).length

/-- `nextLine(true)` passes over the blanks and gives the line behind them. -/
theorem nextLine_true {c : Cursor} (hpos : c.pos ≤ c.text.length) :
    c.nextLine true = .ok (SocketStream.popCR (lineOf newline (c.rest.dropWhile isspace)),
      ⟨c.text, c.visibleLineEnd + 1⟩) := by
  rw [nextLine, guarded_of_le hpos]
  simp only [if_true, drop_length_takeWhile]
  rfl

/-- With no word ahead there are only blanks. -/
theorem dropWhile_of_word_nil {c : Cursor} (h : c.word = []) : c.rest.dropWhile isspace = [] := by
  cases hd : c.rest.dropWhile isspace with
  | nil => rfl
  | cons b r =>
    have hb := head_dropWhile isspace c.rest b (by rw [hd]; rfl)
    rw [word, hd, List.takeWhile_cons_of_pos (by rw [hb]; rfl)] at h
    cases h

theorem visibleLineEnd_of_word_nil {c : Cursor} (hpos : c.pos ≤ c.text.length)
    (h : c.word = []) : c.visibleLineEnd = c.text.length := by
  have hdrop := dropWhile_of_word_nil h
  have htake : c.rest.takeWhile isspace = c.rest := by
    conv_rhs => rw [← List.takeWhile_append_dropWhile (p := isspace) (l := c.rest), hdrop,
      List.append_nil]
  have hlen : c.rest.length = c.text.length - c.pos := List.length_drop
  have hline : lineOf newline (c.rest.dropWhile isspace) = [] := by
    rw [hdrop]
    rfl
  rw [visibleLineEnd, htake, hline, List.length_nil]
  omega

/-- The line does not end in front of the cursor. -/
theorem pos_le_visibleLineEnd (c : Cursor) : c.pos ≤ c.visibleLineEnd := by
  rw [visibleLineEnd]
  omega

/-- The line ends within the text. -/
theorem visibleLineEnd_le {c : Cursor} (hpos : c.pos ≤ c.text.length) :
    c.visibleLineEnd ≤ c.text.length := by
  have hle := nextLine_pos_le true hpos
  simp only [if_true, drop_length_takeWhile] at hle
  exact hle

/-- The next word stands in that line. -/
theorem afterWord_le_visibleLineEnd (c : Cursor) : c.afterWord.pos ≤ c.visibleLineEnd := by
  have hword : c.word.length ≤ (lineOf newline (c.rest.dropWhile isspace)).length := by
    refine (takeWhile_prefix_takeWhile (fun b hb => ?_) _).length_le
    simpa using ne_newline_of_isspace (c := b) (by simpa using hb)
  show c.pos + _ + c.word.length ≤ c.pos + _ + _
  omega

end Cursor

/-- Where `parseStatusLine` finds no status, or a newline before the last byte read, it
    rejects: this is so whenever the first line has fewer than three words. -/
theorem statusLine_gone {c : Cursor} (hgone : c.word = [] ∨ newline ∈ c.text ∧
      (firstLine c.text).length < c.pos + (c.rest.takeWhile isspace).length)
    (hend : c.visibleLineEnd ≤ c.text.length) (hlen : c.visibleLineEnd + 1 < npos) :
    find (c.text.take (c.visibleLineEnd + 1)) newline
        ≠ sizeSub (c.text.take (c.visibleLineEnd + 1)).length 1 ∨
      lineOf newline (c.rest.dropWhile isspace) = [] := by
  by_cases hline : lineOf newline (c.rest.dropWhile isspace) = []
  · exact .inr hline
  refine .inl ?_
  have hlinePos := List.length_pos_of_ne_nil hline
  rcases hgone with hword | ⟨hnl, hlt⟩
  · -- No word ahead: nothing stands behind the blanks.
    rw [Cursor.dropWhile_of_word_nil hword] at hline
    exact absurd rfl hline
  · -- The newline found first is the one of the first line, which has been left behind.
    have hbehind : (firstLine c.text).length + 1 < c.visibleLineEnd := by
      show _ < c.pos + _ + _
      omega
    rw [find_take (by omega) hnl, List.length_take, sizeSub]
    rw [npos] at hlen
    omega

/-- What has been passed over ends with its only newline exactly when the first line is ended. -/
theorem find_lineEnd_iff {S : Bytes} (hne : S ≠ []) (hlen : (firstLine S).length + 1 < npos) :
    find (S.take ((firstLine S).length + 1)) newline
        = sizeSub (S.take ((firstLine S).length + 1)).length 1 ↔ newline ∈ S := by
  have hpos := List.length_pos_of_ne_nil hne
  have hline := length_firstLine_le S
  by_cases hnl : newline ∈ S
  · have hlt := length_firstLine_lt hnl
    rw [npos] at hlen
    refine iff_of_true ?_ hnl
    rw [find_take (Nat.lt_succ_self _) hnl, List.length_take, sizeSub]
    omega
  · refine iff_of_false ?_ hnl
    rw [find_of_not_mem fun hmem => hnl (List.mem_of_mem_take hmem), List.length_take, sizeSub]
    rw [npos] at hlen ⊢
    omega

/-- The status is the rest of a line that has a third word. -/
theorem parseStatus_in_line {s : SocketStream} {c : Cursor} (h : Tracks s c)
    (hpos : c.pos ≤ (firstLine c.text).length) (hline : (firstLine c.text).length + 1 < 2 ^ 32)
    (hne : tokens c.lineAhead ≠ []) (version : Bytes) (code : UInt32) :
    ∃ s', (parseStatus version code).Returns s (.ok
        (if newline ∈ c.text then
          if version = [] ∨ code = 0 ∨ popCR (c.lineAhead.dropWhile isspace) = [] then none
          else some (version, code, popCR (c.lineAhead.dropWhile isspace))
        else none) s') ∧ Tracks s' ⟨c.text, (firstLine c.text).length + 1⟩ := by
  -- There is a word, so there is a text.
  have htext : c.text ≠ [] := by
    intro hnil
    rw [Cursor.lineAhead, hnil] at hne
    simp [firstLine, lineOf, tokens, words] at hne
  have hnext := Cursor.nextLine_in_line true hpos fun _ => hne
  rw [if_pos rfl] at hnext
  obtain ⟨s', hret, htr⟩ := nextLine_returns h hnext hline
  refine ⟨s', ?_, htr⟩
  unfold parseStatus
  rw [Prog.returns_bind_of_ok hret, Prog.returns_bind_of_ok (passedBuffer_returns htr)]
  simp only [Cursor.passedBuffer, ne_eq, find_lineEnd_iff htext (by rw [npos]; omega),
    List.isEmpty_iff]
  by_cases hnl : newline ∈ c.text
  · simp only [hnl, not_true_eq_false, false_or, if_true]
    split <;> exact (Prog.returns_pure _ _ _).mpr rfl
  · simp only [hnl, not_false_eq_true, true_or, if_true, if_false]
    exact (Prog.returns_pure _ _ _).mpr rfl

/-- With no third word in the line the status line is refused. -/
theorem parseStatus_gone {s : SocketStream} {c : Cursor} (h : Tracks s c)
    (hpos : c.pos ≤ c.text.length) (hend : c.visibleLineEnd + 1 < 2 ^ 32)
    (hgone : c.word = [] ∨ newline ∈ c.text ∧
      (firstLine c.text).length < c.pos + (c.rest.takeWhile isspace).length)
    (version : Bytes) (code : UInt32) :
    ∃ s', (parseStatus version code).Returns s (.ok none s') := by
  obtain ⟨s', hret, htr⟩ := nextLine_returns h (Cursor.nextLine_true hpos) hend
  refine ⟨s', ?_⟩
  unfold parseStatus
  rw [Prog.returns_bind_of_ok hret, Prog.returns_bind_of_ok (passedBuffer_returns htr), if_pos,
    Prog.returns_pure]
  rcases statusLine_gone hgone (Cursor.visibleLineEnd_le hpos) (by rw [npos]; omega) with
    hfind | hline
  · exact .inl hfind
  · exact .inr (.inr (.inr (by rw [hline]; rfl)))

/-- Where the line ends in which the third word of a text stands, if it has three. -/
def thirdLineEnd (S : Bytes) : ℕ := (Cursor.mk S 0).afterWord.afterWord.visibleLineEnd

/-- The line of the third word ends within the text. -/
theorem thirdLineEnd_le (S : Bytes) : thirdLineEnd S ≤ S.length :=
  Cursor.visibleLineEnd_le
    (Cursor.afterWord_pos_le (Cursor.afterWord_pos_le (c := ⟨S, 0⟩) (Nat.zero_le _)))

/-- No earlier than the first line does. -/
theorem firstLine_le_thirdLineEnd (S : Bytes) : (firstLine S).length ≤ thirdLineEnd S := by
  have hle : (Cursor.mk S 0).afterWord.afterWord.pos ≤ S.length :=
    Cursor.afterWord_pos_le (Cursor.afterWord_pos_le (c := ⟨S, 0⟩) (Nat.zero_le _))
  have hthree := Cursor.three_words (Cursor.mk S 0) (Nat.zero_le _)
  simp only at hthree
  rcases hthree with ⟨-, -, -, hpos, -, hne⟩ | ⟨-, hnil | ⟨-, hlt⟩⟩
  · have hnext := Cursor.nextLine_in_line true hpos fun _ => hne
    rw [Cursor.nextLine_true hle] at hnext
    have hend := congrArg Cursor.pos (Prod.mk.inj (Except.ok.inj hnext)).2
    exact (Nat.succ_injective hend).ge
  · rw [thirdLineEnd, Cursor.visibleLineEnd_of_word_nil hle hnil]
    exact length_firstLine_le S
  · rw [thirdLineEnd, Cursor.visibleLineEnd]
    omega

/-- Where the third word of a text ends, if it has three. -/
def thirdWordEnd (S : Bytes) : ℕ := (Cursor.mk S 0).afterWord.afterWord.afterWord.pos

/-- The third word ends within the text. -/
theorem thirdWordEnd_le (S : Bytes) : thirdWordEnd S ≤ S.length :=
  Cursor.afterWord_pos_le
    (Cursor.afterWord_pos_le (Cursor.afterWord_pos_le (c := ⟨S, 0⟩) (Nat.zero_le _)))

/-- The search for a third word leaves a first line that does not have it. -/
theorem firstLine_le_thirdWordEnd {S : Bytes} (h : (tokens (firstLine S)).length < 3) :
    (firstLine S).length ≤ thirdWordEnd S := by
  have hle : (Cursor.mk S 0).afterWord.afterWord.pos ≤ S.length :=
    Cursor.afterWord_pos_le (Cursor.afterWord_pos_le (c := ⟨S, 0⟩) (Nat.zero_le _))
  have hpos : thirdWordEnd S = (Cursor.mk S 0).afterWord.afterWord.pos
      + ((Cursor.mk S 0).afterWord.afterWord.rest.takeWhile isspace).length
      + (Cursor.mk S 0).afterWord.afterWord.word.length := rfl
  rcases Cursor.three_words (Cursor.mk S 0) (Nat.zero_le _) with ⟨hmany, -⟩ | ⟨-, hnil | ⟨-, hlt⟩⟩
  · exact absurd h (Nat.not_lt.mpr hmany)
  · -- No third word anywhere: the search has come to the end of the text.
    have hend := Cursor.visibleLineEnd_of_word_nil hle hnil
    have hafter := Cursor.afterWord_le_visibleLineEnd (Cursor.mk S 0).afterWord.afterWord
    have hline := length_firstLine_le S
    have hdrop := Cursor.dropWhile_of_word_nil hnil
    rw [Cursor.visibleLineEnd, hdrop, lineOf, List.takeWhile_nil, List.length_nil,
      Nat.add_zero] at hend
    rw [hpos, hend]
    exact Nat.le_add_right_of_le hline
  · rw [hpos]
    exact Nat.le_add_right_of_le hlt.le

/-- **The status line** is accepted exactly when a newline ends it and `statusOf` reads it;
    the cursor then stands behind the line. -/
theorem parseStatusLine_reads {s : SocketStream} {S : Bytes} (h : Tracks s ⟨S, 0⟩)
    (hwords : (Cursor.mk S 0).afterWord.afterWord.pos < 2 ^ 32)
    (hline : (∃ n, stoul (firstWord (afterFirstWord S)) = .ok n) →
      thirdLineEnd S + 1 < 2 ^ 32) :
    ∃ s', parseStatusLine.Returns s (.ok (statusLineOf S) s') ∧
      (statusLineOf S ≠ none → Tracks s' ⟨S, (firstLine S).length + 1⟩) := by
  have hle0 : (Cursor.mk S 0).pos ≤ (Cursor.mk S 0).text.length := Nat.zero_le _
  have hle1 := Cursor.afterWord_pos_le hle0
  have hle2 := Cursor.afterWord_pos_le hle1
  have hfirst := firstLine_le_thirdLineEnd S
  have hpos1 := (Cursor.mk S 0).afterWord.pos_le_afterWord
  have hthree := Cursor.three_words (Cursor.mk S 0) (Nat.zero_le _)
  have hsecond : (Cursor.mk S 0).afterWord.word = firstWord (afterFirstWord S) :=
    congrArg firstWord (Cursor.rest_afterWord _)
  rw [show (Cursor.mk S 0).lineAhead = firstLine S from rfl] at hthree
  simp only [Cursor.afterWord_text] at hle0 hle1 hle2 hthree
  rw [thirdLineEnd] at hline hfirst
  rw [← hsecond] at hline
  obtain ⟨s1, hret1, htr1⟩ := nextWord_tracks h hle0 (by omega)
  obtain ⟨s2, hret2, htr2⟩ := nextWord_tracks htr1 hle1 hwords
  unfold parseStatusLine
  simp only [Prog.returns_bind_of_ok hret1,
    Prog.returns_bind_of_ok (Prog.returns_attempt_of_ok hret2), Except.bind]
  rcases hthree with ⟨-, hword1, hword2, hpos2, hahead2, hne2⟩ | ⟨hfew, hgone⟩
  · -- Three words: the code is read from the line, and decides whether the status is.
    rw [statusLineOf, statusOf, ← hword1, ← hword2, ← hahead2]
    cases hcode : stoul (Cursor.mk S 0).afterWord.word with
    | error e =>
      rw [ite_self]
      exact ⟨s2, (Prog.returns_pure _ _ _).mpr rfl, fun hne => absurd rfl hne⟩
    | ok n =>
      have hend := hline ⟨n, hcode⟩
      obtain ⟨s3, hret3, htr3⟩ := parseStatus_in_line htr2 hpos2
        (show (firstLine S).length + 1 < 2 ^ 32 by omega) hne2
        (Cursor.mk S 0).word (UInt32.ofNat n)
      exact ⟨s3, hret3, fun _ => htr3⟩
  · -- Fewer: there is no status, wherever the code has come from.
    rw [statusLineOf, statusOf_few hfew, ite_self]
    cases hcode : stoul (Cursor.mk S 0).afterWord.word with
    | error e => exact ⟨s2, (Prog.returns_pure _ _ _).mpr rfl, fun hne => absurd rfl hne⟩
    | ok n =>
      obtain ⟨s3, hret3⟩ := parseStatus_gone htr2 hle2 (hline ⟨n, hcode⟩) hgone
        (Cursor.mk S 0).word (UInt32.ofNat n)
      exact ⟨s3, hret3, fun hne => absurd rfl hne⟩

/-! ### The parsers -/

/-- **Headers and body**, from a position at the start of a line. -/
theorem message_returns {s : SocketStream} {c : Cursor} (h : Tracks s c)
    (hlen : c.text.length < 2 ^ 32) (hend : c.text.length + 1 < 2 ^ 32 ∨ LinesEnd ∅ c.rest) :
    ∃ s1 s2, parseHeaders.Returns s (.ok (fields ∅ c.rest).1 s1) ∧
      parseBody.Returns s1 (.ok (bodyOf (fields ∅ c.rest).2) s2) := by
  obtain ⟨s1, c1, hret1, htr1, htext1, hrest1⟩ := headerLoop_returns ∅ h hlen hend
  have hblanks := (List.takeWhile_prefix (l := c1.rest) isspace).length_le
  have hlen1 : c1.rest.length = c1.text.length - c1.pos := List.length_drop
  have hpos1 : c1.pos < 2 ^ 32 := htr1.pos_lt
  rw [htext1] at hlen1
  obtain ⟨s2, hret2⟩ := parseBody_returns htr1 (by rw [htext1]; omega) (by omega)
  rw [hrest1] at hret2
  exact ⟨s1, s2, hret1, hret2⟩

/-- The 32-bit cursor is enough for `parseRequest`: for the words and the rest of the first line,
    and, unless these are refused, for all that follows. -/
structure Readable (S : Bytes) : Prop where
  words : thirdWordEnd S < 2 ^ 32
  line : (firstLine S).length + 1 < 2 ^ 32
  message : requestLineOf (firstLine S) ≠ none →
    S.length < 2 ^ 32 ∧ (S.length + 1 < 2 ^ 32 ∨ LinesEnd ∅ (afterFirstLine S))

/-- Every text shorter than 2³² - 1 is readable. -/
theorem readable_of_short {S : Bytes} (h : S.length < 2 ^ 32 - 1) : Readable S := by
  have hline := length_firstLine_le S
  have hwords := thirdWordEnd_le S
  exact ⟨by omega, by omega, fun _ => ⟨by omega, .inl (by omega)⟩⟩

/-- **`parseRequest` computes `requestOf`** of all the bytes that arrive before the first empty
    `recv`, however they are cut into chunks, -/
theorem parseRequest_reads (rs : List RecvResult) (h : Readable (delivered rs)) :
    ∃ s', parseRequest.Returns (ofSocket rs) (.ok (requestOf (delivered rs)) s') := by
  obtain ⟨s1, hret1, htr1⟩ :=
    parseRequestLine_wraps (tracks_ofSocket rs) h.words (Nat.lt_of_succ_lt h.line)
  rw [Cursor.wrap_of_lt h.line] at htr1
  unfold parseRequest requestOf
  cases hreq : requestLineOf (firstLine (delivered rs)) with
  | none =>
    rw [hreq] at hret1
    refine ⟨s1, ?_⟩
    rw [Prog.returns_bind_of_ok hret1]
    exact (Prog.returns_pure _ _ _).mpr rfl
  | some p =>
    obtain ⟨method, resource, version⟩ := p
    have hrest : (Cursor.mk (delivered rs) ((firstLine (delivered rs)).length + 1)).rest
        = afterFirstLine (delivered rs) := drop_length_lineOf newline _
    -- The cursor stands behind the first line, where the headers start.
    obtain ⟨hlen, hend⟩ := h.message (by rw [hreq]; exact Option.some_ne_none _)
    rw [hreq] at hret1 htr1
    obtain ⟨s2, s3, hret2, hret3⟩ :=
      message_returns (htr1 (Option.some_ne_none _)) hlen (by rw [hrest]; exact hend)
    rw [hrest] at hret2 hret3
    refine ⟨s3, ?_⟩
    rw [Prog.returns_bind_of_ok hret1, Prog.returns_bind_of_ok hret2,
      Prog.returns_bind_of_ok hret3]
    exact (Prog.returns_pure _ _ _).mpr rfl

/-- The same for fewer than 2³² - 1 bytes. -/
theorem parseRequest_returns (rs : List RecvResult) (hlen : (delivered rs).length < 2 ^ 32 - 1) :
    ∃ s', parseRequest.Returns (ofSocket rs) (.ok (requestOf (delivered rs)) s') :=
  parseRequest_reads rs (readable_of_short hlen)

/-- **`parseResponse` computes `responseOf`** of all the bytes that arrive before the first
    empty `recv`. -/
theorem parseResponse_returns (rs : List RecvResult)
    (hlen : (delivered rs).length < 2 ^ 32 - 1) :
    ∃ s', parseResponse.Returns (ofSocket rs) (.ok (responseOf (delivered rs)) s') := by
  have hline := thirdLineEnd_le (delivered rs)
  have hwords := Cursor.pos_le_visibleLineEnd (Cursor.mk (delivered rs) 0).afterWord.afterWord
  rw [← thirdLineEnd] at hwords
  obtain ⟨s1, hret1, htr1⟩ :=
    parseStatusLine_reads (tracks_ofSocket rs) (by omega) fun _ => by omega
  unfold parseResponse responseOf
  cases hstatus : statusLineOf (delivered rs) with
  | none =>
    rw [hstatus] at hret1
    refine ⟨s1, ?_⟩
    rw [Prog.returns_bind_of_ok hret1]
    exact (Prog.returns_pure _ _ _).mpr rfl
  | some p =>
    obtain ⟨version, code, status⟩ := p
    rw [hstatus] at hret1 htr1
    have hlen' : (delivered rs).length + 1 < 2 ^ 32 := by omega
    obtain ⟨s2, s3, hret2, hret3⟩ :=
      message_returns (htr1 (Option.some_ne_none _)) (Nat.lt_of_succ_lt hlen') (.inl hlen')
    have hrest : (Cursor.mk (delivered rs) ((firstLine (delivered rs)).length + 1)).rest
        = afterFirstLine (delivered rs) := drop_length_lineOf newline _
    rw [hrest] at hret2 hret3
    refine ⟨s3, ?_⟩
    rw [Prog.returns_bind_of_ok hret1, Prog.returns_bind_of_ok hret2,
      Prog.returns_bind_of_ok hret3]
    exact (Prog.returns_pure _ _ _).mpr rfl

/-! ### Chunks -/

/-- The answers to a sequence of calls on a fresh stream are the cursor's. -/
theorem observe_returns {rs : List RecvResult} (hlen : (delivered rs).length < 2 ^ 32 - 1)
    (calls : List StreamCall) :
    ∃ s', (Prog.observe SocketStream.call calls : StreamM _).Returns (ofSocket rs)
      (.ok (observe Cursor.call calls ⟨delivered rs, 0⟩) s') :=
  (socketStream_simulates_cursor (delivered rs) hlen).observe calls ⟨tracks_ofSocket rs, rfl⟩

/-- **Chunks do not matter.** A stream answers every sequence of calls, up to the first that
    throws, as a cursor over all that is delivered does; calls of `hasNext` put in between
    change none of the other answers; and the parsers return the same for any two ways of
    delivering the same bytes. -/
theorem socketStream_refines_cursor (rs : List RecvResult)
    (hlen : (delivered rs).length < 2 ^ 32 - 1) :
    (∀ calls, ∃ s', (Prog.observe SocketStream.call calls : StreamM _).Returns (ofSocket rs)
      (.ok (observe Cursor.call calls ⟨delivered rs, 0⟩) s')) ∧
    (∀ calls, ∃ answers s' s'',
      (Prog.observe SocketStream.call calls : StreamM _).Returns (ofSocket rs) (.ok answers s') ∧
      (Prog.observe SocketStream.call (calls.filter (· != .hasNext)) : StreamM _).Returns
        (ofSocket rs) (.ok (answers.filter fun p => p.1 != .hasNext) s'')) ∧
    (∀ rs', delivered rs' = delivered rs →
      (∃ r s' s'', parseRequest.Returns (ofSocket rs) (.ok r s') ∧
        parseRequest.Returns (ofSocket rs') (.ok r s'')) ∧
      (∃ r s' s'', parseResponse.Returns (ofSocket rs) (.ok r s') ∧
        parseResponse.Returns (ofSocket rs') (.ok r s''))) := by
  refine ⟨fun calls => observe_returns hlen calls, ?_, ?_⟩
  · intro calls
    -- Calls of `hasNext` leave the cursor where it is, so they may be left out.
    obtain ⟨s', hs'⟩ := observe_returns hlen calls
    obtain ⟨s'', hs''⟩ := observe_returns hlen (calls.filter (· != .hasNext))
    refine ⟨_, s', s'', hs', ?_⟩
    rw [observe_filter Cursor.call (· != .hasNext)]
    · exact hs''
    · intro call c hcall
      obtain rfl : call = .hasNext := by simpa using hcall
      exact ⟨.bool c.hasNext, rfl⟩
  · intro rs' hrs'
    -- Both deliver the same bytes, on which the parsers compute the same.
    have hlen' : (delivered rs').length < 2 ^ 32 - 1 := by rw [hrs']; exact hlen
    obtain ⟨s1, h1⟩ := parseRequest_returns rs hlen
    obtain ⟨s2, h2⟩ := parseRequest_returns rs' hlen'
    obtain ⟨s3, h3⟩ := parseResponse_returns rs hlen
    obtain ⟨s4, h4⟩ := parseResponse_returns rs' hlen'
    rw [hrs'] at h2 h4
    exact ⟨⟨_, s1, s2, h1, h2⟩, ⟨_, s3, s4, h3, h4⟩⟩

/-- A chunk that ends within a word, and one that ends within a line end. -/
theorem socketStream_refines_cursor_split :
    ∃ s', (Prog.observe SocketStream.call [.nextWord, .hasNext, .nextLine false, .nextWord,
        .remaining] : StreamM _).Returns
        (ofSocket [some (bytes "GE"), some (bytes "T /\r"), some (bytes "\nab"), none])
      (.ok (observe Cursor.call [.nextWord, .hasNext, .nextLine false, .nextWord, .remaining]
        ⟨bytes "GET /\r\nab", 0⟩) s') :=
  (socketStream_refines_cursor
    [some (bytes "GE"), some (bytes "T /\r"), some (bytes "\nab"), none] (by decide)).1 _

end Evaluation
