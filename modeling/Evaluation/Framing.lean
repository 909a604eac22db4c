import Evaluation.RoundTrip

namespace Evaluation

open Lib SocketStream

/-!
# Which requests are accepted, and where their headers and body stand

`requestOf` against a description of the text by its lines.

* `lines`, `headerLines`, `framedBody` — the lines of a text, those between the first line and
  the first empty one, and what stands behind that;
* `parseRequest_accepts` — a request is returned exactly for a first line of three words that
  starts with the name of a method; when every header line has a colon, the header map holds
  for each name what its last line says;
* `parseRequest_body_iff` — the body is what stands behind the first empty line exactly when
  that is absent or more than blanks, and no header line without a colon has anything but
  blanks behind it.
-/

/-- The lines of a text; each loses one CR. -/
def lines (S : Bytes) : List Bytes := (linesOf newline S).map popCR

/-- The lines behind the first, up to the first empty one. -/
def headerLines (S : Bytes) : List Bytes := (lines S).tail.takeWhile fun line => line != []

/-- The lower-cased text before the first colon of a line. -/
def nameOf (line : Bytes) : Bytes := lowerName (lineOf colon line)

/-- The text behind it, without leading blanks. -/
def valueOf (line : Bytes) : Bytes := (afterLine colon line).dropWhile isspace

/-- What stands behind the first empty line, ended by CRLF or LF; nothing when there is none. -/
def behindEmpty (T : Bytes) : Bytes := behindLine newline (fun line => popCR line == []) T

/-- What stands behind the first line with no colon. -/
def behindColonless (T : Bytes) : Bytes :=
  behindLine newline (fun line => !(popCR line).contains colon) T

/-- The body as the empty line after the request line frames it. -/
def framedBody (S : Bytes) : Bytes := behindEmpty (afterFirstLine S)

/-! ### Lines -/

/-- The lines are the first one, and those behind it. -/
theorem lines_step {T : Bytes} (h : T ≠ []) :
    lines T = popCR (firstLine T) :: lines (afterFirstLine T) := by
  rw [lines, linesOf_step h, List.map_cons]
  rfl

/-- The lines behind the first are those of the text behind it. -/
theorem lines_tail (S : Bytes) : (lines S).tail = lines (afterFirstLine S) := by
  by_cases h : S = []
  · subst h
    rfl
  · rw [lines_step h, List.tail_cons]

/-- The lines of a text up to the first empty one. -/
def upToEmpty (T : Bytes) : List Bytes := (lines T).takeWhile fun line => line != []

/-- The header lines are those behind the request line up to the first empty one. -/
theorem headerLines_eq (S : Bytes) : headerLines S = upToEmpty (afterFirstLine S) := by
  rw [headerLines, lines_tail, upToEmpty]

/-- In front of an empty line there are no lines. -/
theorem upToEmpty_empty {T : Bytes} (h : popCR (firstLine T) = []) : upToEmpty T = [] := by
  by_cases hT : T = []
  · subst hT
    rfl
  · rw [upToEmpty, lines_step hT, h]
    rfl

theorem upToEmpty_cons {T : Bytes} (h : popCR (firstLine T) ≠ []) :
    upToEmpty T = popCR (firstLine T) :: upToEmpty (afterFirstLine T) := by
  have hT : T ≠ [] := by
    rintro rfl
    exact h rfl
  rw [upToEmpty, lines_step hT, List.takeWhile_cons_of_pos (by simpa using h)]
  rfl

/-- In a text of blanks, a header line would be one with no colon. -/
theorem upToEmpty_blank {T : Bytes} (hblank : T.all isspace = true)
    (hcolon : ∀ line ∈ upToEmpty T, colon ∈ line) : upToEmpty T = [] := by
  by_contra hne
  have hline : popCR (firstLine T) ≠ [] := fun h => hne (upToEmpty_empty h)
  have hmem : popCR (firstLine T) ∈ upToEmpty T := by
    rw [upToEmpty_cons hline]
    exact List.mem_cons_self ..
  have hin : colon ∈ T := (List.takeWhile_prefix _).subset (mem_of_mem_popCR (hcolon _ hmem))
  have hspace := List.all_eq_true.mp hblank colon hin
  rw [isspace_colon] at hspace
  cases hspace

/-! ### The header map -/

/-- **The header map**, when every header line has a colon: the fields of the lines, assigned in
    their order. -/
theorem fields_headers_eq (hs : Headers) (T : Bytes)
    (hcolon : ∀ line ∈ upToEmpty T, colon ∈ line) :
    (fields hs T).1 = insertAll hs ((upToEmpty T).map fun line => ⟨nameOf line, valueOf line⟩) := by
  induction hs, T using fields_induction with
  | blank hs T hblank =>
    -- A blank line has no colon, so the headers have ended.
    rw [fields_blank hblank, upToEmpty_blank hblank hcolon]
    rfl
  | stop hs T hblank hsplit =>
    -- A line with no colon can only be the empty one.
    have hempty : popCR (firstLine T) = [] := by
      by_contra hne
      refine splitField_eq_none.mp hsplit (hcolon _ ?_)
      rw [upToEmpty_cons hne]
      exact List.mem_cons_self ..
    rw [fields_noColon hblank hsplit, upToEmpty_empty hempty]
    rfl
  | step hs T f hblank hsplit ih =>
    obtain ⟨hmem, hname, hvalue⟩ := splitField_some hsplit
    have hne : popCR (firstLine T) ≠ [] := List.ne_nil_of_mem hmem
    rw [upToEmpty_cons hne] at hcolon ⊢
    rw [fields_field hblank hsplit, ih fun line h => hcolon line (List.mem_cons_of_mem _ h),
      List.map_cons, hname, hvalue]
    rfl

/-- What `requestOf` returns, in terms of the words and the lines of the text. -/
theorem requestOf_eq_some {S : Bytes} {r : HTTPRequest} (h : requestOf S = some r) :
    requestLineOf (firstLine S) = some (r.method, r.resource, r.version) ∧
      r.headers = (fields ∅ (afterFirstLine S)).1 ∧
      r.body = bodyOf (fields ∅ (afterFirstLine S)).2 := by
  rw [requestOf, Option.map_eq_some_iff] at h
  obtain ⟨⟨m, resource, version⟩, hline, rfl⟩ := h
  exact ⟨hline, rfl, rfl⟩

/-- A request line is accepted if and only if it is made of the name of a method and two words. -/
theorem requestLineOf_isSome (line : Bytes) :
    (requestLineOf line).isSome ↔
      ∃ m : Method, m ≠ .UNKNOWN ∧ ∃ resource version,
        tokens line = [m.methodToString, resource, version] := by
  constructor
  · intro h
    obtain ⟨⟨m, resource, version⟩, hsome⟩ := Option.isSome_iff_exists.mp h
    obtain ⟨hm, htokens⟩ := requestLineOf_some hsome
    exact ⟨m, hm, resource, version, htokens⟩
  · rintro ⟨m, hm, resource, version, htokens⟩
    rw [requestLineOf, htokens]
    simp only [stringToMethod_methodToString hm, hm, if_false, Option.isSome_some]

/-- **What is accepted.**  `parseRequest` returns a request exactly when the first line is made of
    three words, the first of them the name of a method; these are then the method, the
    resource and the version.  When every header line has a colon, a name is looked up as the
    value of the last line with that name. -/
theorem parseRequest_accepts (rs : List RecvResult) (hlen : (delivered rs).length < 2 ^ 32 - 1) :
    ∃ out s', parseRequest.Returns (ofSocket rs) (.ok out s') ∧
      (out.isSome ↔ ∃ m : Method, m ≠ .UNKNOWN ∧ ∃ resource version,
        tokens (firstLine (delivered rs)) = [m.methodToString, resource, version]) ∧
      ∀ r, out = some r →
        (r.method ≠ .UNKNOWN ∧
          tokens (firstLine (delivered rs)) = [r.method.methodToString, r.resource, r.version]) ∧
        ((∀ line ∈ headerLines (delivered rs), colon ∈ line) → ∀ name value,
          r.headers.lookup name = some value ↔ ∃ before line after,
            headerLines (delivered rs) = before ++ line :: after ∧
              nameOf line = name ∧ valueOf line = value ∧ ∀ l ∈ after, nameOf l ≠ name) := by
  obtain ⟨s', hret⟩ := parseRequest_returns rs hlen
  refine ⟨_, s', hret, ?_, ?_⟩
  · rw [← requestLineOf_isSome, requestOf, Option.isSome_map]
  intro r hr
  obtain ⟨hline, hheaders, -⟩ := requestOf_eq_some hr
  refine ⟨requestLineOf_some hline, ?_⟩
  intro hcolon name value
  rw [headerLines_eq] at hcolon ⊢
  rw [hheaders, fields_headers_eq ∅ _ hcolon, lookup_insertAll]
  constructor
  · rintro ⟨pre, post, heq, hpost⟩
    obtain ⟨before, tail, hsplit, rfl, htail⟩ := List.map_eq_append_iff.mp heq
    obtain ⟨line, after, rfl, hfield, rfl⟩ := List.map_eq_cons_iff.mp htail
    obtain ⟨hname, hvalue⟩ := Sigma.mk.inj hfield
    refine ⟨before, line, after, hsplit, hname, eq_of_heq hvalue, ?_⟩
    intro l hl
    exact hpost ⟨nameOf l, valueOf l⟩ (List.mem_map_of_mem hl)
  · rintro ⟨before, line, after, hsplit, rfl, rfl, hafter⟩
    refine ⟨_, _, by rw [hsplit, List.map_append, List.map_cons], ?_⟩
    intro f hf
    obtain ⟨l, hl, rfl⟩ := List.mem_map.mp hf
    exact hafter l hl

/-- A first line with more blanks than needed, and a name that comes twice. -/
theorem parseRequest_accepts_get :
    ∃ out s', parseRequest.Returns (ofSocket [some (bytes "\tGET  /a v\r\nX: 1\nx:2\n\nb")])
        (.ok out s') ∧ (out.isSome ↔ ∃ m : Method, m ≠ .UNKNOWN ∧ ∃ resource version,
          tokens (firstLine (bytes "\tGET  /a v\r\nX: 1\nx:2\n\nb"))
            = [m.methodToString, resource, version]) := by
  obtain ⟨out, s', hret, hsome, -⟩ :=
    parseRequest_accepts [some (bytes "\tGET  /a v\r\nX: 1\nx:2\n\nb")] (by decide +kernel)
  exact ⟨out, s', hret, hsome⟩

/-! ### The body -/

/-- What is left is taken as the body unless it is blank. -/
theorem bodyOf_eq_self_iff (T : Bytes) : bodyOf T = T ↔ Visible T := by
  unfold bodyOf Visible
  cases hblank : T.all isspace with
  | true =>
    rw [if_pos rfl]
    constructor
    · intro h
      exact .inl h.symm
    · rintro (rfl | ⟨c, hc, hspace⟩)
      · rfl
      · rw [List.all_eq_true.mp hblank c hc] at hspace
        cases hspace
  | false =>
    obtain ⟨c, hc, hspace⟩ := List.all_eq_false.mp hblank
    exact iff_of_true (if_neg Bool.false_ne_true) (.inr ⟨c, hc, by simpa using hspace⟩)

/-- Blanks give no body. -/
theorem bodyOf_of_blank {T : Bytes} (h : T.all isspace = true) : bodyOf T = [] := if_pos h

/-- What is not blank is the body as it is. -/
theorem bodyOf_of_visible {T : Bytes} (h : T.all isspace = false) : bodyOf T = T :=
  if_neg (by rw [h]; exact Bool.false_ne_true)

/-- Of a blank text only nothing is visible. -/
theorem visible_of_blank {T : Bytes} (h : T.all isspace = true) : Visible T ↔ [] = T := by
  rw [← bodyOf_eq_self_iff, bodyOf_of_blank h]

/-- The end of blanks is blank. -/
theorem all_of_suffix {T T' : Bytes} (h : T' <:+ T) (hblank : T.all isspace = true) :
    T'.all isspace = true :=
  List.all_eq_true.mpr fun c hc => List.all_eq_true.mp hblank c (h.subset hc)

/-- Behind an empty first line stands the rest. -/
theorem behindEmpty_empty {T : Bytes} (h : popCR (firstLine T) = []) :
    behindEmpty T = afterFirstLine T := by
  rw [behindEmpty, behindLine_step, ← firstLine, h]
  rfl

/-- A line in front of the empty one is passed over. -/
theorem behindEmpty_next {T : Bytes} (h : popCR (firstLine T) ≠ []) :
    behindEmpty T = behindEmpty (afterFirstLine T) := by
  rw [behindEmpty, behindLine_step, ← firstLine, if_neg (by simpa using h)]
  rfl

/-- Behind a first line without a colon stands the rest. -/
theorem behindColonless_here {T : Bytes} (h : colon ∉ popCR (firstLine T)) :
    behindColonless T = afterFirstLine T := by
  rw [behindColonless, behindLine_step, ← firstLine, if_pos (by simpa using h)]
  rfl

/-- A line with a colon is passed over. -/
theorem behindColonless_next {T : Bytes} (h : colon ∈ popCR (firstLine T)) :
    behindColonless T = behindColonless (afterFirstLine T) := by
  rw [behindColonless, behindLine_step, ← firstLine, if_neg (by simpa using h)]
  rfl

/-- **The body taken from the headers on** is what stands behind the first empty line, exactly
    when that can be seen and no line without a colon has anything but blanks behind it. -/
theorem bodyOf_fields_iff (hs : Headers) (T : Bytes) :
    bodyOf (fields hs T).2 = behindEmpty T ↔ Visible (behindEmpty T) ∧
      ((∀ line ∈ upToEmpty T, colon ∈ line) ∨ (behindColonless T).all isspace = true) := by
  induction hs, T using fields_induction with
  | blank hs T hblank =>
    -- Nothing but blanks ahead: no body is taken.
    have hB : (behindEmpty T).all isspace = true := all_of_suffix (behindLine_suffix ..) hblank
    have hC : (behindColonless T).all isspace = true := all_of_suffix (behindLine_suffix ..) hblank
    rw [fields_blank hblank, bodyOf_of_blank hblank, visible_of_blank hB]
    exact ⟨fun h => ⟨h, .inr hC⟩, fun h => h.1⟩
  | stop hs T hblank hsplit =>
    have hcolon := splitField_eq_none.mp hsplit
    rw [fields_noColon hblank hsplit, behindColonless_here hcolon]
    by_cases hempty : popCR (firstLine T) = []
    · -- The empty line.
      rw [behindEmpty_empty hempty, upToEmpty_empty hempty, bodyOf_eq_self_iff]
      exact ⟨fun h => ⟨h, .inl (by simp)⟩, fun h => h.1⟩
    · -- A line without a colon: the rest of the headers is taken for the body.
      have hnot : ¬ ∀ line ∈ upToEmpty T, colon ∈ line := by
        intro hall
        refine hcolon (hall _ ?_)
        rw [upToEmpty_cons hempty]
        exact List.mem_cons_self ..
      rw [behindEmpty_next hempty, or_iff_right hnot]
      show bodyOf (afterFirstLine T) = _ ↔ _
      cases hrest : (afterFirstLine T).all isspace with
      | true =>
        have hB : (behindEmpty (afterFirstLine T)).all isspace = true :=
          all_of_suffix (behindLine_suffix ..) hrest
        rw [bodyOf_of_blank hrest, visible_of_blank hB]
        exact ⟨fun h => ⟨h, rfl⟩, fun h => h.1⟩
      | false =>
        -- What is taken is longer, by the lines up to the empty one.
        rw [bodyOf_of_visible hrest]
        refine iff_of_false (fun heq => ?_) (fun h => by cases h.2)
        have hne : afterFirstLine T ≠ [] := by
          intro hnil
          rw [hnil] at hrest
          cases hrest
        have hlt : (behindEmpty (afterFirstLine T)).length < _ := length_behindLine_lt _ hne
        exact absurd (congrArg List.length heq) (by omega)
  | step hs T f hblank hsplit ih =>
    obtain ⟨hmem, -, -⟩ := splitField_some hsplit
    have hne : popCR (firstLine T) ≠ [] := List.ne_nil_of_mem hmem
    rw [fields_field hblank hsplit, behindEmpty_next hne, behindColonless_next hmem,
      upToEmpty_cons hne, List.forall_mem_cons, ih]
    simp only [hmem, true_and]

/-- **Body framing.**  The body of a request is what stands behind the first empty line after the
    request line, exactly when that is nothing or more than blanks, and either every line before
    it has a colon or only blanks stand behind the first line that has none. -/
theorem parseRequest_body_iff (rs : List RecvResult) (hlen : (delivered rs).length < 2 ^ 32 - 1)
    (r : HTTPRequest) (s' : SocketStream)
    (hret : parseRequest.Returns (ofSocket rs) (.ok (some r) s')) :
    r.body = framedBody (delivered rs) ↔ Visible (framedBody (delivered rs)) ∧
      ((∀ line ∈ headerLines (delivered rs), colon ∈ line) ∨
        (behindColonless (afterFirstLine (delivered rs))).all isspace = true) := by
  obtain ⟨s1, hret1⟩ := parseRequest_returns rs hlen
  obtain ⟨-, -, hbody⟩ := requestOf_eq_some (Outcome.ok.inj (hret1.unique hret)).1
  rw [hbody, headerLines_eq]
  exact bodyOf_fields_iff ∅ _

/-- A body that starts with a blank, behind a header. -/
theorem parseRequest_body_iff_put :
    bytes " x" = framedBody (bytes "PUT / v\nA:\n\n x") ↔
      Visible (framedBody (bytes "PUT / v\nA:\n\n x")) ∧
        ((∀ line ∈ headerLines (bytes "PUT / v\nA:\n\n x"), colon ∈ line) ∨
          (behindColonless (afterFirstLine (bytes "PUT / v\nA:\n\n x"))).all isspace = true) :=
  parseRequest_body_iff [some (bytes "PUT / v\nA:\n\n x")] (by decide +kernel)
    ⟨.PUT, bytes "/", bytes "v", (∅ : Headers).insert (bytes "a") [], bytes " x"⟩ _ ⟨100, rfl⟩

/-- A body of blanks is dropped, and the header behind a line with no colon becomes part of the
    body. -/
theorem parseRequest_body_counterexample :
    ¬ (∀ rs r s', (delivered rs).length < 2 ^ 32 - 1 →
      parseRequest.Returns (ofSocket rs) (.ok (some r) s') →
        r.body = framedBody (delivered rs)) ∧
    ∃ s', parseRequest.Returns (ofSocket [some (bytes "PUT / v\r\nbad\r\nA: 1\r\n\r\nx")])
      (.ok (some ⟨.PUT, bytes "/", bytes "v", ∅, bytes "A: 1\r\n\r\nx"⟩) s') := by
  refine ⟨fun h => ?_, _, 100, rfl⟩
  have hret : parseRequest.Returns (ofSocket [some (bytes "PUT / v\r\n\r\n \n")])
      (.ok (some ⟨.PUT, bytes "/", bytes "v", ∅, []⟩) _) := ⟨100, rfl⟩
  exact absurd (h _ _ _ (by decide +kernel) hret) (by decide +kernel)

end Evaluation
