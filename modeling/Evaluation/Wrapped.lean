import Evaluation.Framing

namespace Evaluation

open Lib SocketStream

/-!
# Streams on which the cursor wraps to the start

On a stream of 2³² - 1 bytes the last `++` of `nextLine` takes the cursor back to 0 when no newline
ends the line.  The header loop has then read the last header line, and goes on with the request
line when that line had a colon; when it had none, all of the text is left for the body.

* `headerLoop_wraps` — the header loop on such a stream;
* `parseRequest_wraps` — the request that `parseRequest` returns there;
* `requestLineOf_of_parse` — on every stream, the first line of a request that is returned.
-/

/-- The last line of a text; it loses one CR. -/
def lastLine (T : Bytes) : Bytes := (lines T).getLastD []

/-- The last line is that of what stands behind the first one. -/
theorem lastLine_next {T : Bytes} (h : afterFirstLine T ≠ []) :
    lastLine T = lastLine (afterFirstLine T) := by
  have hT : T ≠ [] := by
    rintro rfl
    exact h rfl
  unfold lastLine
  rw [lines_step hT]
  rw [lines_step h]
  rfl

/-- The cursor goes back to the start behind the headers. -/
def Wraps (S : Bytes) : Prop := S.length + 1 = 2 ^ 32 ∧ ¬ LinesEnd ∅ (afterFirstLine S)

/-! ### The end of the headers -/

/-- A text whose headers do not end in front of its end has something visible in it. -/
theorem visible_of_not_linesEnd {hs : Headers} {T : Bytes} (h : ¬ LinesEnd hs T) :
    T.all isspace = false := by
  by_contra hblank
  rw [Bool.not_eq_false] at hblank
  refine h ?_
  unfold LinesEnd
  rw [fields_blank hblank]
  cases T with
  | nil => exact .inl nofun
  | cons c T => exact .inr (List.cons_ne_nil c T)

/-- A line that a newline ends, before the last line: it adds a field, and the last line is that of
    what stands behind it. -/
theorem next_of_not_linesEnd {hs : Headers} {T : Bytes} (h : ¬ LinesEnd hs T)
    (hnl : newline ∈ T) :
    ∃ f, splitField (popCR (firstLine T)) = some f ∧
      ¬ LinesEnd (hs.insert f.1 f.2) (afterFirstLine T) ∧
      lastLine T = lastLine (afterFirstLine T) := by
  have hblank := visible_of_not_linesEnd h
  have htext : T = firstLine T ++ newline :: afterFirstLine T :=
    (Cursor.text_cases T).elim (fun hno => absurd hnl hno.1) fun h => h.2
  have hlast : T.getLast? = some ((afterFirstLine T).getLast?.getD newline) := by
    conv_lhs => rw [htext]
    rw [List.getLast?_append, List.getLast?_cons]
    rfl
  unfold LinesEnd at h ⊢
  rw [not_or, not_not, hlast] at h
  obtain ⟨hlast, hrest⟩ := h
  -- The newline is not the last byte.
  have hafter : afterFirstLine T ≠ [] := by
    intro hnil
    rw [hnil] at hlast
    exact hlast fun b hb => (Option.some.inj hb).symm
  cases hsplit : splitField (popCR (firstLine T)) with
  | none =>
    rw [fields_noColon hblank hsplit] at hrest
    exact absurd hrest hafter
  | some f =>
    refine ⟨f, rfl, ?_, lastLine_next hafter⟩
    rw [← fields_field hblank hsplit, not_or, not_not]
    refine ⟨fun hall => hlast fun b hb => hall b ?_, hrest⟩
    rw [List.getLast?_eq_some_getLast hafter] at hb ⊢
    exact hb

/-! ### The header loop -/

/-- **The header loop** reads all the headers, and its cursor goes back to the start: the loop goes
    on from there if the last line has a colon, and has ended there if it has none. -/
theorem headerLoop_wraps {s : SocketStream} {c : Cursor} (hs : Headers) (h : Tracks s c)
    (hlen : c.text.length + 1 = 2 ^ 32) (hend : ¬ LinesEnd hs c.rest) :
    ∃ s', Tracks s' ⟨c.text, 0⟩ ∧
      if colon ∈ lastLine c.rest then
        ∀ o, (Prog.loop headerRound (fields hs c.rest).1).Returns s' o →
          (Prog.loop headerRound hs).Returns s o
      else (Prog.loop headerRound hs).Returns s (.ok (fields hs c.rest).1 s') := by
  -- Induction on the bytes ahead: every line but the last adds a field.
  induction hn : c.rest.length using Nat.strong_induction_on generalizing s c hs with
  | _ n ih =>
    have hblank := visible_of_not_linesEnd hend
    have hrest : c.rest.length = c.text.length - c.pos := List.length_drop
    have hblanks := (List.takeWhile_prefix (l := c.rest) isspace).length_le
    have hne : c.rest ≠ [] := by
      intro hnil
      rw [hnil] at hblank
      cases hblank
    have hpos := List.length_pos_of_ne_nil hne
    by_cases hnl : newline ∈ c.rest
    · have hline : (behindLineAt c).pos < 2 ^ 32 := by
        have hlt := length_firstLine_lt hnl
        show c.pos + (firstLine c.rest).length + 1 < 2 ^ 32
        omega
      obtain ⟨f, hsplit, hend1, hlast⟩ := next_of_not_linesEnd hend hnl
      obtain ⟨s1, htr1, hret⟩ :=
        headerRound_returns hs h hblank (by omega) (Nat.le_of_lt hline)
      rw [Cursor.wrap_of_lt hline] at htr1
      rw [hsplit] at hret
      have hrest1 := behindLineAt_rest c
      rw [hlast, fields_field hblank hsplit, ← hrest1]
      rw [← hrest1] at hend1
      have hlt : (behindLineAt c).rest.length < n := by
        rw [hrest1, ← hn]
        exact length_afterLine_lt hne
      obtain ⟨s', htr', hloop⟩ := ih _ hlt (hs.insert f.1 f.2) htr1 hlen hend1 rfl
      refine ⟨s', htr', ?_⟩
      split at hloop
      · rename_i hcolon
        rw [if_pos hcolon]
        intro o ho
        exact (Prog.returns_loop_of_next hret _).mpr (hloop o ho)
      · rename_i hcolon
        rw [if_neg hcolon]
        exact (Prog.returns_loop_of_next hret _).mpr hloop
    · -- The last line.
      have hline : firstLine c.rest = c.rest := lineOf_of_not_mem hnl
      have hafter : afterFirstLine c.rest = [] := afterLine_of_not_mem hnl
      have hend : (behindLineAt c).pos = 2 ^ 32 := by
        show c.pos + (firstLine c.rest).length + 1 = 2 ^ 32
        rw [hline]
        omega
      obtain ⟨s1, htr1, hret⟩ :=
        headerRound_returns hs h hblank (by omega) (Nat.le_of_eq hend)
      have hwrap : (behindLineAt c).wrap = ⟨c.text, 0⟩ := by
        rw [Cursor.wrap, hend]
        rfl
      have hlast : lastLine c.rest = popCR (firstLine c.rest) := by
        rw [lastLine, lines_step hne, hafter]
        rfl
      rw [hwrap] at htr1
      refine ⟨s1, htr1, ?_⟩
      rw [hlast]
      cases hsplit : splitField (popCR (firstLine c.rest)) with
      | none =>
        rw [hsplit] at hret
        rw [if_neg (splitField_eq_none.mp hsplit), fields_noColon hblank hsplit]
        exact Prog.returns_loop_of_done hret
      | some f =>
        rw [hsplit] at hret
        rw [if_pos (splitField_some hsplit).1, fields_field hblank hsplit, hafter, fields_nil]
        intro o ho
        exact (Prog.returns_loop_of_next hret _).mpr ho

/-! ### The parser -/

/-- What is taken for the body when the cursor goes back to the start: what stands behind the
    request line, which ends the header loop, or all of the text. -/
def wrappedBody (S : Bytes) : Bytes := if colon ∈ lastLine S then afterFirstLine S else S

/-- A stream that wraps has a newline in it. -/
theorem newline_mem_of_wraps {S : Bytes} (h : Wraps S) : newline ∈ S := by
  by_contra hno
  refine h.2 (.inl ?_)
  rw [show afterFirstLine S = [] from afterLine_of_not_mem hno]
  nofun

/-- A line with no colon ends the header loop, which stands behind it. -/
theorem headerLoop_noColon {s : SocketStream} {c : Cursor} (hs : Headers) (h : Tracks s c)
    (hvisible : c.rest.all isspace = false)
    (hskip : c.pos + (c.rest.takeWhile isspace).length < 2 ^ 32)
    (hline : (behindLineAt c).pos < 2 ^ 32) (hcolon : colon ∉ firstLine c.rest) :
    ∃ s', (Prog.loop headerRound hs).Returns s (.ok hs s') ∧ Tracks s' (behindLineAt c) := by
  obtain ⟨s', htr, hret⟩ := headerRound_returns hs h hvisible hskip (Nat.le_of_lt hline)
  have hnone : splitField (popCR (firstLine c.rest)) = none :=
    splitField_eq_none.mpr fun hmem => hcolon (mem_of_mem_popCR hmem)
  rw [hnone] at hret
  rw [Cursor.wrap_of_lt hline] at htr
  exact ⟨s', Prog.returns_loop_of_done hret, htr⟩

/-- **Headers and body** of such a stream, behind a first line with no colon. -/
theorem message_wraps {s : SocketStream} {S : Bytes}
    (h : Tracks s ⟨S, (firstLine S).length + 1⟩) (hwraps : Wraps S) (hcolon : colon ∉ firstLine S) :
    ∃ s1 s2, parseHeaders.Returns s (.ok (fields ∅ (afterFirstLine S)).1 s1) ∧
      parseBody.Returns s1 (.ok (wrappedBody S) s2) := by
  obtain ⟨hlen, hend⟩ := hwraps
  have hlt := length_firstLine_lt (newline_mem_of_wraps ⟨hlen, hend⟩)
  have hvisible := visible_of_not_linesEnd hend
  have hafter : afterFirstLine S ≠ [] := by
    intro hnil
    rw [hnil] at hvisible
    cases hvisible
  have hall : S.all isspace = false := by
    rw [Bool.eq_false_iff]
    intro hall
    have hblank : (afterFirstLine S).all isspace = true :=
      all_of_suffix (afterLine_suffix newline S) hall
    rw [hblank] at hvisible
    cases hvisible
  have hrest : (Cursor.mk S ((firstLine S).length + 1)).rest = afterFirstLine S :=
    drop_length_lineOf newline S
  -- The cursor has wrapped to the start of the text, so everything is read from there again.
  have hskip : (Cursor.mk S 0).pos + ((Cursor.mk S 0).rest.takeWhile isspace).length < 2 ^ 32 := by
    have hblanks := (List.takeWhile_prefix (l := S) isspace).length_le
    show 0 + (S.takeWhile isspace).length < 2 ^ 32
    omega
  rw [← hrest] at hend
  obtain ⟨s1, htr1, hloop⟩ := headerLoop_wraps ∅ h hlen hend
  rw [hrest] at hloop
  unfold wrappedBody
  rw [lastLine_next hafter]
  split at hloop
  · -- The loop reads the request line, and ends there.
    rename_i hlastColon
    have hrest2 := behindLineAt_rest ⟨S, 0⟩
    have hline : (behindLineAt ⟨S, 0⟩).pos < 2 ^ 32 := by
      show 0 + (firstLine S).length + 1 < 2 ^ 32
      omega
    obtain ⟨s2, hret2, htr2⟩ :=
      headerLoop_noColon (fields ∅ (afterFirstLine S)).1 htr1 hall hskip hline hcolon
    have hskip2 : (behindLineAt ⟨S, 0⟩).pos
        + ((behindLineAt ⟨S, 0⟩).rest.takeWhile isspace).length < 2 ^ 32 := by
      have hblanks :=
        (List.takeWhile_prefix (l := (behindLineAt ⟨S, 0⟩).rest) isspace).length_le
      have hlen2 : (behindLineAt ⟨S, 0⟩).rest.length = S.length - (behindLineAt ⟨S, 0⟩).pos :=
        List.length_drop
      omega
    obtain ⟨s3, hret3⟩ := parseBody_returns htr2 (show S.length < 2 ^ 32 by omega) hskip2
    rw [hrest2] at hret3
    refine ⟨s2, s3, hloop _ hret2, ?_⟩
    rw [if_pos hlastColon, ← bodyOf_of_visible hvisible]
    exact hret3
  · -- The loop has ended, and all of the text is ahead.
    rename_i hlastColon
    obtain ⟨s2, hret2⟩ := parseBody_returns htr1 (show S.length < 2 ^ 32 by omega) hskip
    refine ⟨s1, s2, hloop, ?_⟩
    rw [if_neg hlastColon, ← bodyOf_of_visible hall]
    exact hret2

/-- **`parseRequest`** on such a stream. -/
theorem parseRequest_wraps {rs : List RecvResult} {method : Method} {resource version : Bytes}
    (hwraps : Wraps (delivered rs))
    (hline : requestLineOf (firstLine (delivered rs)) = some (method, resource, version))
    (hcolon : colon ∉ firstLine (delivered rs)) :
    ∃ s', parseRequest.Returns (ofSocket rs) (.ok (some
      { method, resource, version
        headers := (fields ∅ (afterFirstLine (delivered rs))).1
        body := wrappedBody (delivered rs) }) s') := by
  have hlen := hwraps.1
  have hwords := thirdWordEnd_le (delivered rs)
  have hlt := length_firstLine_lt (newline_mem_of_wraps hwraps)
  obtain ⟨s1, hret1, htr1⟩ := parseRequestLine_wraps (tracks_ofSocket rs)
    (show thirdWordEnd (delivered rs) < 2 ^ 32 by omega) (by omega)
  rw [hline] at hret1 htr1
  -- The first line still ends before the wrap.
  have htr := htr1 (Option.some_ne_none _)
  rw [Cursor.wrap_of_lt (show (firstLine (delivered rs)).length + 1 < 2 ^ 32 by omega)] at htr
  obtain ⟨s2, s3, hret2, hret3⟩ := message_wraps htr hwraps hcolon
  refine ⟨s3, ?_⟩
  unfold parseRequest
  rw [Prog.returns_bind_of_ok hret1, Prog.returns_bind_of_ok hret2, Prog.returns_bind_of_ok hret3]
  exact (Prog.returns_pure _ _ _).mpr rfl

/-- **A request that is returned** has the words of the first line. -/
theorem requestLineOf_of_parse {rs : List RecvResult} {r : HTTPRequest} {s : SocketStream}
    (hlen : (delivered rs).length < 2 ^ 32)
    (h : parseRequest.Returns (ofSocket rs) (.ok (some r) s)) :
    requestLineOf (firstLine (delivered rs)) = some (r.method, r.resource, r.version) := by
  have hwords := thirdWordEnd_le (delivered rs)
  have hline := length_firstLine_le (delivered rs)
  obtain ⟨s1, hret1, -⟩ := parseRequestLine_wraps (tracks_ofSocket rs)
    (show thirdWordEnd (delivered rs) < 2 ^ 32 by omega) (by omega)
  unfold parseRequest at h
  rw [Prog.returns_bind_of_ok hret1] at h
  -- Neither the headers nor the body change what the first line said.
  cases hwords : requestLineOf (firstLine (delivered rs)) with
  | none =>
    rw [hwords] at h
    cases (Prog.returns_pure _ _ _).mp h
  | some words =>
    obtain ⟨method, resource, version⟩ := words
    rw [hwords] at h
    rcases (Prog.returns_bind ..).mp h with ⟨headers, s2, -, h⟩ | ⟨e, s2, -, h⟩
    · rcases (Prog.returns_bind ..).mp h with ⟨body, s3, -, h⟩ | ⟨e, s3, -, h⟩
      · cases (Prog.returns_pure _ _ _).mp h
        rfl
      · cases h
    · cases h

end Evaluation
