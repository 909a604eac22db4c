import Evaluation.CheckedStream

namespace Evaluation

open Lib

/-!
# What the parsers ask of the text

Which bytes of a message `parseRequest` and `parseResponse` pass to `isspace` and `tolower`, and
which lines must not be empty when their last byte is looked at, as conditions on the text.

* `headerRests` — what stands ahead each time the header loop asks `hasNext`; `HeadersBack` and
  `HeadersLegal` are what the loop asks for there;
* `asks_headerLoop`, `asks_parseRequestLine`, `asks_parseStatusLine` — the parts of the parsers;
* `unviolated_parseRequest_iff`, `unviolated_parseResponse_iff` — no check of the whole fails if
  and only if the text meets the conditions, as long as what the parsers read before the body lies
  where a 32-bit cursor reaches (`HeadFits`).
-/

/-! ### The headers -/

/-- What stands ahead each time the header loop asks whether to go on. -/
def headerRests (T : Bytes) : List Bytes :=
  if h : T.all isspace = true then [T]
  else
    have : (afterFirstLine T).length < T.length :=
      length_afterLine_lt (by rintro rfl; exact h rfl)
    match splitField (SocketStream.popCR (firstLine T)) with
    | none => [T]
    | some _ => T :: headerRests (afterFirstLine T)
termination_by T.length

/-- Of a header line the loop classifies the name, and the value up to its first visible byte. -/
def FieldLegal (line : Bytes) : Prop :=
  colon ∈ line → Legal (lineOf colon line) ∧ VisibleLegal (afterLine colon line)

/-- Where a header line is read, it is not empty. -/
def LineBack (R : Bytes) : Prop := R.all isspace = false → firstLine R ≠ []

/-- Where a header line is read, the bytes that are classified may be. -/
def LineLegal (R : Bytes) : Prop :=
  VisibleLegal R ∧ FieldLegal (SocketStream.popCR (firstLine R))

/-- No line of the headers is empty; the one that ends them has a CR. -/
def HeadersBack (T : Bytes) : Prop := ∀ R ∈ headerRests T, LineBack R

/-- What the header loop classifies, and the first visible byte of the body. -/
def HeadersLegal (T : Bytes) : Prop :=
  (∀ R ∈ headerRests T, LineLegal R) ∧ VisibleLegal (fields ∅ T).2

/-- In front of blanks the loop asks once. -/
theorem headerRests_blank {T : Bytes} (h : T.all isspace = true) : headerRests T = [T] := by
  rw [headerRests, dif_pos h]

/-- A line without a colon is the last that is asked for. -/
theorem headerRests_stop {T : Bytes} (h : T.all isspace = false)
    (hline : splitField (SocketStream.popCR (firstLine T)) = none) : headerRests T = [T] := by
  rw [headerRests, dif_neg (by rw [h]; exact Bool.false_ne_true)]
  simp only [hline]

/-- A header line, then the lines behind it. -/
theorem headerRests_field {T : Bytes} {f : Field} (h : T.all isspace = false)
    (hline : splitField (SocketStream.popCR (firstLine T)) = some f) :
    headerRests T = T :: headerRests (afterFirstLine T) := by
  rw [headerRests, dif_neg (by rw [h]; exact Bool.false_ne_true)]
  simp only [hline]

/-- Blanks may all be classified. -/
theorem visibleLegal_of_blank {T : Bytes} (h : T.all isspace = true) : VisibleLegal T := by
  rw [VisibleLegal, dropWhile_of_all (List.all_eq_true.mp h)]
  exact legal_nil

/-- Blanks have no colon in them. -/
theorem not_colon_mem_of_blank {line : Bytes} (h : line.all isspace = true) : colon ∉ line :=
  fun hmem => Bool.false_ne_true (List.all_eq_true.mp h colon hmem)

/-- Bytes out of blanks are blanks. -/
theorem blank_of_mem {v w : Bytes} (h : w.all isspace = true) (hvw : ∀ c ∈ v, c ∈ w) :
    v.all isspace = true :=
  List.all_eq_true.mpr fun c hc => List.all_eq_true.mp h c (hvw c hc)

/-! ### The first line -/

/-- What stands behind the third word of a line. -/
def restOfLine (line : Bytes) : Bytes := afterFirstWord (afterFirstWord (afterFirstWord line))

/-- Something stands behind the version. -/
def FirstLineBack (S : Bytes) : Prop :=
  3 ≤ (tokens (firstLine S)).length → restOfLine (firstLine S) ≠ []

/-- `parseRequest` classifies the first three words, wherever they stand, and what is behind the
    version up to its first visible byte. -/
def FirstLineLegal (S : Bytes) : Prop :=
  (Legal (firstWord S) ∧ Legal (firstWord (afterFirstWord S)) ∧
    Legal (firstWord (afterFirstWord (afterFirstWord S)))) ∧
  (3 ≤ (tokens (firstLine S)).length →
    VisibleLegal (SocketStream.popCR (restOfLine (firstLine S))))

/-- A status follows the code. -/
def StatusBack (S : Bytes) : Prop :=
  (∃ n, stoul (firstWord (afterFirstWord S)) = .ok n) → 3 ≤ (tokens S).length

/-- `parseResponse` classifies the version and the code, and the first byte of the status. -/
def StatusLegal (S : Bytes) : Prop :=
  (Legal (firstWord S) ∧ Legal (firstWord (afterFirstWord S))) ∧
  ((∃ n, stoul (firstWord (afterFirstWord S)) = .ok n) →
    VisibleLegal (afterFirstWord (afterFirstWord S)))

/-- `parseRequest` looks at the last byte of no empty line. -/
def RequestBack (S : Bytes) : Prop :=
  FirstLineBack S ∧ (requestLineOf (firstLine S) ≠ none → HeadersBack (afterFirstLine S))

/-- `parseRequest` classifies no byte that it may not. -/
def RequestLegal (S : Bytes) : Prop :=
  FirstLineLegal S ∧ (requestLineOf (firstLine S) ≠ none → HeadersLegal (afterFirstLine S))

/-- `parseResponse` looks at the last byte of no empty line. -/
def ResponseBack (S : Bytes) : Prop :=
  StatusBack S ∧ (statusLineOf S ≠ none → HeadersBack (afterFirstLine S))

/-- `parseResponse` classifies no byte that it may not. -/
def ResponseLegal (S : Bytes) : Prop :=
  StatusLegal S ∧ (statusLineOf S ≠ none → HeadersLegal (afterFirstLine S))

/-- The headers that a text of `n` bytes ends with, and the first visible byte of the body, stand
    where 32 bits reach, and so does the cursor where the last header has no newline. -/
structure HeadersFit (n : ℕ) (T : Bytes) : Prop where
  visible : n < 2 ^ 32 + ((fields ∅ T).2.dropWhile isspace).length
  lines : n + 1 < 2 ^ 32 ∨ LinesEnd ∅ T

/-- What the parsers read before the body stands where 32 bits reach: the first three words, the
    first line where it has three, the line with the third word where the second is a number, and
    the headers behind a first line that is accepted. -/
structure HeadFits (S : Bytes) : Prop where
  words : thirdWordEnd S < 2 ^ 32
  line : 3 ≤ (tokens (firstLine S)).length → (firstLine S).length < 2 ^ 32
  status : (∃ n, stoul (firstWord (afterFirstWord S)) = .ok n) → thirdLineEnd S + 1 < 2 ^ 32
  headers : requestLineOf (firstLine S) ≠ none ∨ statusLineOf S ≠ none →
    (firstLine S).length + 1 < 2 ^ 32 ∧ HeadersFit S.length (afterFirstLine S)

/-- A text that 32 bits can count fits. -/
theorem headFits_of_short {S : Bytes} (h : S.length < 2 ^ 32 - 1) : HeadFits S := by
  have hwords := thirdWordEnd_le S
  have hline := length_firstLine_le S
  have hthird := thirdLineEnd_le S
  exact ⟨by omega, fun _ => by omega, fun _ => by omega,
    fun _ => ⟨by omega, by omega, .inl (by omega)⟩⟩

/-- Of a text that both parsers refuse by its first line, only the words need fit: the third may
    stand in a line of any length. -/
theorem headFits_of_refused {S : Bytes} (hwords : thirdWordEnd S < 2 ^ 32)
    (hfew : (tokens (firstLine S)).length < 3)
    (hcode : ∀ n, stoul (firstWord (afterFirstWord S)) ≠ .ok n)
    (hrequest : requestLineOf (firstLine S) = none) (hstatus : statusLineOf S = none) :
    HeadFits S where
  words := hwords
  line := fun hmany => absurd hfew (Nat.not_lt.mpr hmany)
  status := fun ⟨n, hn⟩ => absurd hn (hcode n)
  headers := fun hsome => absurd hsome (by rw [hrequest, hstatus]; simp)

-- No parser reads the line with the version here.
example (T : Bytes) : HeadFits (bytes "GET /\n HTTP/1.1 " ++ T) := by
  have hline : firstLine (bytes "GET /\n HTTP/1.1 " ++ T) = bytes "GET /" := rfl
  have hword1 : (Cursor.mk (bytes "GET /\n HTTP/1.1 " ++ T) 0).afterWord = ⟨_, 3⟩ := rfl
  have hword2 : (Cursor.mk (bytes "GET /\n HTTP/1.1 " ++ T) 3).afterWord = ⟨_, 5⟩ := rfl
  have hword3 : (Cursor.mk (bytes "GET /\n HTTP/1.1 " ++ T) 5).afterWord = ⟨_, 15⟩ := rfl
  refine headFits_of_refused ?_ (by rw [hline]; decide) nofun (by rw [hline]; rfl) ?_
  · rw [thirdWordEnd, hword1, hword2, hword3]
    norm_num
  · rw [statusLineOf, hline, show statusOf (bytes "GET /") = none from rfl, ite_self]

/-- The first line fits whether it has three words or not. -/
theorem HeadFits.firstLine_lt {S : Bytes} (h : HeadFits S) : (firstLine S).length < 2 ^ 32 := by
  by_cases hfew : (tokens (firstLine S)).length < 3
  · exact (firstLine_le_thirdWordEnd hfew).trans_lt h.words
  · exact h.line (Nat.le_of_not_lt hfew)

/-- So does the second word. -/
theorem HeadFits.secondWord_lt {S : Bytes} (h : HeadFits S) :
    (Cursor.mk S 0).afterWord.afterWord.pos < 2 ^ 32 :=
  (Cursor.pos_le_afterWord _).trans_lt h.words

/-! ### The headers as `fields` reads them -/

/-- Nothing but blanks ahead is fine. -/
theorem lineBack_of_blank {T : Bytes} (h : T.all isspace = true) : LineBack T := by
  intro hno
  rw [h] at hno
  cases hno

/-- Where only blanks are ahead no line is read, and what is classified may be. -/
theorem lineLegal_of_blank {T : Bytes} (h : T.all isspace = true) : LineLegal T := by
  refine ⟨visibleLegal_of_blank h, fun hcolon => absurd hcolon (not_colon_mem_of_blank ?_)⟩
  rw [all_popCR]
  exact blank_of_mem h fun c hc => (List.takeWhile_prefix _).subset hc

/-- No line is empty in headers that are blank. -/
theorem headersBack_of_blank {T : Bytes} (h : T.all isspace = true) : HeadersBack T := by
  unfold HeadersBack
  rw [headerRests_blank h, List.forall_mem_singleton]
  exact lineBack_of_blank h

/-- All that is classified in headers that are blank may be. -/
theorem headersLegal_of_blank {T : Bytes} (h : T.all isspace = true) : HeadersLegal T := by
  unfold HeadersLegal
  rw [headerRests_blank h, List.forall_mem_singleton, fields_blank h]
  exact ⟨lineLegal_of_blank h, visibleLegal_of_blank h⟩

/-- The loop leaves a suffix of what it started with. -/
theorem fields_suffix (hs : Headers) (T : Bytes) : (fields hs T).2 <:+ T := by
  refine fields_induction (motive := fun hs T => (fields hs T).2 <:+ T) ?_ ?_ ?_ hs T
  · intro hs T h
    rw [fields_blank h]
  · intro hs T h hline
    rw [fields_noColon h hline]
    exact afterLine_suffix newline T
  · intro hs T f h hline ih
    rw [fields_field h hline]
    exact ih.trans (afterLine_suffix newline T)

/-- Where a line is read, it leaves a suffix of what stands behind that line. -/
theorem fields_suffix_afterLine (hs : Headers) {T : Bytes} (h : T.all isspace = false) :
    (fields hs T).2 <:+ afterFirstLine T := by
  cases hline : splitField (SocketStream.popCR (firstLine T)) with
  | none =>
    rw [fields_noColon h hline]
  | some f =>
    rw [fields_field h hline]
    exact fields_suffix _ _

/-- What is left does not depend on the headers read before. -/
theorem fields_rest (hs : Headers) (T : Bytes) : (fields hs T).2 = (fields ∅ T).2 := by
  suffices h : ∀ hs', (fields hs T).2 = (fields hs' T).2 from h ∅
  refine fields_induction (motive := fun hs T => ∀ hs', (fields hs T).2 = (fields hs' T).2)
    ?_ ?_ ?_ hs T
  · intro hs T h hs'
    rw [fields_blank h, fields_blank h]
  · intro hs T h hline hs'
    rw [fields_noColon h hline, fields_noColon h hline]
  · intro hs T f h hline ih hs'
    rw [fields_field h hline, fields_field h hline]
    exact ih _

/-- Behind a header line the headers still fit. -/
theorem headersFit_next {n : ℕ} {T : Bytes} {f : Field} (h : HeadersFit n T)
    (hblank : T.all isspace = false)
    (hline : splitField (SocketStream.popCR (firstLine T)) = some f) :
    HeadersFit n (afterFirstLine T) := by
  have hvisible := h.visible
  rw [fields_field hblank hline, fields_rest] at hvisible
  refine ⟨hvisible, h.lines.imp_right fun hlines => ?_⟩
  have hnext := linesEnd_next hlines hblank hline
  rw [LinesEnd, fields_rest] at hnext
  exact hnext

/-- A suffix with its leading blanks gone is no longer than the whole without them. -/
theorem length_dropWhile_le_of_suffix {U T : Bytes} (h : U <:+ T) :
    (U.dropWhile isspace).length ≤ (T.dropWhile isspace).length := by
  obtain ⟨V, rfl⟩ := h
  rw [List.dropWhile_append]
  split
  · exact le_rfl
  · rw [List.length_append]
    have hle := (List.dropWhile_suffix (l := U) isspace).length_le
    omega

namespace Checked

variable (enforced : Precondition → Bool)

/-- A header line with a colon in it is cut there. -/
theorem asks_field {line : Bytes} (hcolon : colon ∈ line) (hlen : line.length < npos)
    (hs : Headers) (s : SocketStream) :
    ∃ o, Asks enforced (headerLine enforced hs line) s o True
      (Legal (lineOf colon line) ∧ VisibleLegal (afterLine colon line)) := by
  have hfind : ¬ find line colon = npos := fun hf => (find_eq_npos_iff hlen).mp hf hcolon
  obtain ⟨hname, hvalue⟩ := field_of_line hcolon
  have hbehind : line.drop (find line colon + 1) = afterLine colon line := by
    rw [find_of_mem hcolon, drop_length_lineOf]
  -- The value starts in the line or at its end.
  have hstart : Evaluation.skipBlanks line (find line colon + 1) ≤ line.length := by
    by_contra hpast
    rw [substr, if_neg hpast] at hvalue
    cases hvalue
  rw [substr, if_pos (Nat.zero_le _)] at hname
  have hheader := callSubstr_returns enforced (Nat.zero_le line.length)
    (find line colon) s
  rw [Except.ok.inj hname] at hheader
  have hblanks := asks_skipBlanks enforced line (find_colon_lt hfind) s
  rw [hbehind] at hblanks
  unfold headerLine
  rw [if_neg (by simpa using List.ne_nil_of_mem hcolon), if_neg hfind]
  have hcall := callSubstr_returns enforced hstart line.length s
  exact ⟨_, Asks.congr (Asks.bind_of_returns hheader (Asks.bind (asks_lowerName enforced _ s)
    (Asks.bind hblanks (Asks.bind_of_returns hcall (Asks.pure _ s))))) (by simp) (by simp)⟩

/-- What the loop does with a line. -/
theorem asks_headerLine {line : Bytes} (hlen : line.length < npos) (hs : Headers)
    (s : SocketStream) :
    ∃ o, Asks enforced (headerLine enforced hs line) s o True (FieldLegal line) := by
  by_cases hcolon : colon ∈ line
  · obtain ⟨o, hask⟩ := asks_field enforced hcolon hlen hs s
    exact ⟨o, hask.congr Iff.rfl ⟨fun hl _ => hl, fun hl => hl hcolon⟩⟩
  · unfold headerLine
    rw [(find_eq_npos_iff hlen).mpr hcolon, if_pos rfl, ite_self]
    exact ⟨_, (Asks.pure _ s).congr Iff.rfl (iff_of_true trivial fun hl => absurd hl hcolon)⟩

/-- A round of the header loop that reads a line. -/
theorem asks_headerRound {s : SocketStream} {c : Cursor} (hs : Headers) (h : Tracks s c)
    (hblank : c.rest.all isspace = false)
    (hskip : c.pos + (c.rest.takeWhile isspace).length < 2 ^ 32)
    (hline : (behindLineAt c).pos ≤ 2 ^ 32) :
    ∃ s', Tracks s' (behindLineAt c).wrap ∧
      Asks enforced (headerRound enforced hs) s
        (.ok (match splitField (SocketStream.popCR (firstLine c.rest)) with
          | none => .inr hs
          | some f => .inl (hs.insert f.1 f.2)) s') (LineBack c.rest) (LineLegal c.rest) := by
  obtain ⟨s', htr, hret⟩ := headerRound_returns hs h hblank hskip hline
  refine ⟨s', htr, Asks.of_exists ?_ (checks_headerRound hs) hret⟩
  obtain ⟨hnext, hpos⟩ := hasNext_of_visible hblank
  obtain ⟨s1, htr1, hask1⟩ := asks_hasNext enforced h hskip
  obtain ⟨s2, -, hask2⟩ := asks_nextLine enforced htr1 (nextLine_behind hpos) hline
  rw [hnext] at hask1
  -- The line is shorter than npos, so that find can tell a miss from a hit.
  have hlen : (SocketStream.popCR (firstLine c.rest)).length < npos := by
    have hle := length_popCR_le (firstLine c.rest)
    have hbound : c.pos + (firstLine c.rest).length + 1 ≤ 2 ^ 32 := hline
    rw [npos]
    omega
  obtain ⟨o, hask3⟩ := asks_headerLine enforced hlen hs s2
  refine ⟨o, Asks.congr (Asks.bind hask1 (Asks.bind hask2 hask3)) ?_ ?_⟩
  · simp [LineBack, hblank, Cursor.rawLine, firstLine]
  · simp [LineLegal]

/-- A round of the header loop with only blanks ahead. -/
theorem asks_headerRound_blank {s : SocketStream} {c : Cursor} (hs : Headers) (h : Tracks s c)
    (hblank : c.rest.all isspace = true)
    (hskip : c.pos + (c.rest.takeWhile isspace).length < 2 ^ 32) :
    ∃ s', Tracks s' c ∧
      Asks enforced (headerRound enforced hs) s (.ok (.inr hs) s') True True := by
  obtain ⟨s1, htr1, hask1⟩ := asks_hasNext enforced h hskip
  have hnext : c.hasNext = false := by
    rw [Cursor.hasNext, any_not_eq_not_all, hblank]
    rfl
  rw [hnext] at hask1
  refine ⟨s1, htr1, Asks.congr (Asks.bind hask1 (Asks.pure _ s1)) and_self_iff ?_⟩
  exact iff_of_true ⟨visibleLegal_of_blank hblank, trivial⟩ trivial

/-- The cursor keeps to its 32 bits as far as the headers go and the blanks behind them. -/
theorem headerRound_fits {c : Cursor} (hblank : c.rest.all isspace = false)
    (hend : HeadersFit c.text.length c.rest) :
    c.pos + (c.rest.takeWhile isspace).length < 2 ^ 32 ∧ (behindLineAt c).pos < 2 ^ 32 := by
  obtain ⟨hend, hlines⟩ := hend
  obtain ⟨-, hpos⟩ := hasNext_of_visible hblank
  have hrest : c.rest.length = c.text.length - c.pos := List.length_drop
  have hvisible := length_dropWhile_le_of_suffix (fields_suffix ∅ c.rest)
  have hsplit := congrArg List.length
    (List.takeWhile_append_dropWhile (p := isspace) (l := c.rest))
  have hleft := (List.dropWhile_suffix (l := (fields ∅ c.rest).2) isspace).length_le
  have hafter := (fields_suffix_afterLine ∅ hblank).length_le
  rw [List.length_append] at hsplit
  refine ⟨by omega, ?_⟩
  show c.pos + (firstLine c.rest).length + 1 < 2 ^ 32
  rcases Cursor.text_cases c.rest with ⟨hnl, hline, -⟩ | ⟨-, htext⟩
  · -- A last line with no newline: the cursor passes the end of the text.
    have hshort := hlines.resolve_right fun h => hnl (newline_mem_of_linesEnd h hblank)
    rw [hline]
    omega
  · have hlen := congrArg List.length htext
    rw [List.length_append, List.length_cons] at hlen
    omega

/-- **The header loop.** -/
theorem asks_headerLoop {s : SocketStream} {c : Cursor} (hs : Headers) (h : Tracks s c)
    (hend : HeadersFit c.text.length c.rest) :
    ∃ s' c', Tracks s' c' ∧ c'.text = c.text ∧ c'.rest = (fields ∅ c.rest).2 ∧
      Asks enforced (Prog.loop (headerRound enforced) hs) s (.ok (fields hs c.rest).1 s')
        (HeadersBack c.rest) (∀ R ∈ headerRests c.rest, LineLegal R) := by
  have hpos32 : c.pos < 2 ^ 32 := h.pos_lt
  -- Induction on the bytes ahead: a round that goes on has read a line.
  induction hn : c.rest.length using Nat.strong_induction_on generalizing s c hs with
  | _ n ih =>
    unfold HeadersBack
    cases hblank : c.rest.all isspace with
    | true =>
      have hskip : c.pos + (c.rest.takeWhile isspace).length < 2 ^ 32 := by
        have hrest : c.rest.length = c.text.length - c.pos := List.length_drop
        have hle := (List.takeWhile_prefix (l := c.rest) isspace).length_le
        have hvisible := hend.visible
        rw [fields_blank hblank, dropWhile_of_all (List.all_eq_true.mp hblank),
          List.length_nil] at hvisible
        omega
      obtain ⟨s', htr, hround⟩ := asks_headerRound_blank enforced hs h hblank hskip
      rw [fields_blank hblank, fields_blank hblank, headerRests_blank hblank]
      refine ⟨s', c, htr, rfl, rfl, hround.loop_done.congr ?_ ?_⟩
      · simp [lineBack_of_blank hblank]
      · simp [lineLegal_of_blank hblank]
    | false =>
      obtain ⟨hskip, hline⟩ := headerRound_fits hblank hend
      obtain ⟨s1, htr1, hround⟩ :=
        asks_headerRound enforced hs h hblank hskip (Nat.le_of_lt hline)
      rw [Cursor.wrap_of_lt hline] at htr1
      have hrest1 := behindLineAt_rest c
      cases hsplit : splitField (SocketStream.popCR (firstLine c.rest)) with
      | none =>
        rw [hsplit] at hround
        rw [fields_noColon hblank hsplit, fields_noColon hblank hsplit,
          headerRests_stop hblank hsplit]
        refine ⟨s1, behindLineAt c, htr1, rfl, hrest1, hround.loop_done.congr ?_ ?_⟩
        · simp
        · simp
      | some f =>
        rw [hsplit] at hround
        have hend1 := headersFit_next hend hblank hsplit
        rw [fields_field hblank hsplit, fields_field hblank hsplit,
          headerRests_field hblank hsplit, fields_rest, ← hrest1]
        rw [← hrest1] at hend1
        have hlt : (behindLineAt c).rest.length < n := by
          rw [hrest1, ← hn]
          refine length_afterLine_lt ?_
          intro hnil
          rw [hnil] at hblank
          cases hblank
        obtain ⟨s', c', htr', htext', hrest', hloop⟩ :=
          ih _ hlt (hs.insert f.1 f.2) htr1 hend1 hline rfl
        refine ⟨s', c', htr', htext', hrest', (hround.loop_next hloop).congr ?_ ?_⟩
        · exact List.forall_mem_cons.symm
        · exact List.forall_mem_cons.symm

/-- **The body** is taken as it is, behind a look at its first visible byte.  It need not end. -/
theorem unviolated_parseBody_iff {s : SocketStream} {c : Cursor} (h : Tracks s c)
    (hskip : c.pos + (c.rest.takeWhile isspace).length < 2 ^ 32) :
    Prog.Unviolated (parseBody enforced) s ↔
      (enforced .ctype = true → VisibleLegal c.rest) := by
  obtain ⟨s1, htr1, hask1⟩ := asks_hasNext enforced h hskip
  have hrest : Prog.Unviolated
      (if c.hasNext then remaining enforced else pure [] : CheckedM Bytes) s1 := by
    cases hblank : c.rest.all isspace with
    | true =>
      rw [Cursor.hasNext, any_not_eq_not_all, hblank]
      exact Prog.unviolated_pure [] s1
    | false =>
      obtain ⟨hnext, hpos⟩ := hasNext_of_visible hblank
      rw [hnext]
      exact unviolated_remaining enforced htr1 hpos
  refine (Prog.Meets.unviolated_bind_iff hask1).trans ?_
  rw [and_iff_left hrest]
  simp

/-! ### The request line -/

/-- Behind three words that stand in the first line. -/
theorem behind_three_words {S : Bytes} (h : 3 ≤ (tokens (firstLine S)).length) :
    (Cursor.mk S 0).afterWord.afterWord.afterWord.pos ≤ (firstLine S).length ∧
      (Cursor.mk S 0).afterWord.afterWord.afterWord.lineAhead = restOfLine (firstLine S) := by
  have hthree := Cursor.three_words (Cursor.mk S 0) (Nat.zero_le _)
  rw [show (Cursor.mk S 0).lineAhead = firstLine S from rfl] at hthree
  rcases hthree with ⟨-, -, -, hpos2, hahead2, hne2⟩ | ⟨hfew, -⟩
  · obtain ⟨-, hpos3, hahead3, -⟩ := Cursor.word_in_line hpos2 hne2
    refine ⟨hpos3, ?_⟩
    rw [hahead3, hahead2, restOfLine]
  · exact absurd h (by omega)

/-- The words that three calls of `nextWord` return. -/
theorem words_eq (S : Bytes) :
    (Cursor.mk S 0).word = firstWord S ∧
      (Cursor.mk S 0).afterWord.word = firstWord (afterFirstWord S) ∧
      (Cursor.mk S 0).afterWord.afterWord.word
        = firstWord (afterFirstWord (afterFirstWord S)) := by
  have hword : ∀ c : Cursor, c.word = firstWord c.rest := fun _ => rfl
  refine ⟨rfl, ?_, ?_⟩
  · rw [hword, Cursor.rest_afterWord]
    rfl
  · rw [hword, Cursor.rest_afterWord, Cursor.rest_afterWord]
    rfl

/-- **The request line.** -/
theorem asks_parseRequestLine {s : SocketStream} {S : Bytes} (h : Tracks s ⟨S, 0⟩)
    (hwords : thirdWordEnd S < 2 ^ 32) (hline : (firstLine S).length < 2 ^ 32) :
    ∃ s', (requestLineOf (firstLine S) ≠ none →
        Tracks s' (Cursor.mk S ((firstLine S).length + 1)).wrap) ∧
      Asks enforced (parseRequestLine enforced) s (.ok (requestLineOf (firstLine S)) s')
        (FirstLineBack S) (FirstLineLegal S) := by
  obtain ⟨s', hret, htr⟩ := parseRequestLine_wraps h hwords hline
  refine ⟨s', htr, Asks.of_exists ?_ checks_parseRequestLine hret⟩
  have hle0 : (Cursor.mk S 0).pos ≤ (Cursor.mk S 0).text.length := Nat.zero_le _
  have hle1 := Cursor.afterWord_pos_le hle0
  have hle2 := Cursor.afterWord_pos_le hle1
  have hmono1 := (Cursor.mk S 0).afterWord.pos_le_afterWord
  have hmono2 := (Cursor.mk S 0).afterWord.afterWord.pos_le_afterWord
  obtain ⟨hword1, hword2, hword3⟩ := words_eq S
  rw [thirdWordEnd] at hwords
  obtain ⟨s1, htr1, hask1⟩ := asks_nextWord enforced h hle0 (by omega)
  obtain ⟨s2, htr2, hask2⟩ := asks_nextWord enforced htr1 hle1 (by omega)
  obtain ⟨s3, htr3, hask3⟩ := asks_nextWord enforced htr2 hle2 hwords
  have hask4 := asks_passedBuffer enforced htr3
  rw [hword1] at hask1
  rw [hword2] at hask2
  rw [hword3] at hask3
  have hcheck := wordsCheck_iff hline
  rw [hword2, hword3] at hcheck
  unfold parseRequestLine
  by_cases hfew : (tokens (firstLine S)).length < 3
  · refine ⟨_, Asks.congr (Asks.bind hask1 (Asks.bind hask2 (Asks.bind hask3 (Asks.bind hask4
      (o := .ok none s3) (C := True) (U := True) ?_)))) ?_ ?_⟩
    · rw [if_pos (hcheck.mpr hfew)]
      exact Asks.pure none s3
    · simp [FirstLineBack, Nat.not_le.mpr hfew]
    · simp [FirstLineLegal, Nat.not_le.mpr hfew]
  · have hmany := Nat.le_of_not_lt hfew
    obtain ⟨hpos3, hahead3⟩ := behind_three_words hmany
    have hnext := Cursor.nextLine_in_line false hpos3 nofun
    rw [if_neg Bool.false_ne_true, hahead3] at hnext
    obtain ⟨s4, -, hask5⟩ := asks_nextLine enforced htr3 hnext hline
    have hraw : (Cursor.mk S 0).afterWord.afterWord.afterWord.rawLine false
        = restOfLine (firstLine S) := by
      rw [Cursor.rawLine, if_neg Bool.false_ne_true]
      exact (Cursor.lineOf_rest hpos3).trans hahead3
    rw [hraw] at hask5
    have hask6 := asks_anyVisible enforced
      (SocketStream.popCR (restOfLine (firstLine S))) s4
    -- Whether there is something behind the version, and whether the method is known.
    have hrest : ∀ (extra : Bool) (r : Option (Method × Bytes × Bytes)), ∃ o,
        Asks enforced (if extra then pure none
          else if Method.stringToMethod (firstWord S) = .UNKNOWN then pure none
          else pure r : CheckedM (Option (Method × Bytes × Bytes))) s4 o True True := by
      intro extra r
      split
      · exact ⟨_, Asks.pure none s4⟩
      · split
        · exact ⟨_, Asks.pure none s4⟩
        · exact ⟨_, Asks.pure r s4⟩
    obtain ⟨o, hask7⟩ := hrest _ _
    refine ⟨o, Asks.congr (Asks.bind hask1 (Asks.bind hask2 (Asks.bind hask3 (Asks.bind hask4
      (C := restOfLine (firstLine S) ≠ [])
      (U := VisibleLegal (SocketStream.popCR (restOfLine (firstLine S)))) ?_)))) ?_ ?_⟩
    · rw [if_neg fun hfails => hfew (hcheck.mp hfails)]
      exact (Asks.bind hask5 (Asks.bind hask6 hask7)).congr (by simp) (by simp)
    · simp [FirstLineBack, hmany]
    · rw [FirstLineLegal, imp_iff_right hmany, true_and, and_assoc, and_assoc]

/-! ### The status line -/

/-- Where a status is read there is one if a word is ahead. -/
theorem rawLine_ne_nil_iff (c : Cursor) : c.rawLine true ≠ [] ↔ tokens c.rest ≠ [] := by
  rw [tokens, ne_eq, ne_eq, words_eq_nil_iff, Cursor.rawLine, if_pos rfl, not_iff_not]
  cases hd : c.rest.dropWhile isspace with
  | nil => exact Iff.rfl
  | cons b r =>
    have hb := head_dropWhile isspace c.rest b (by rw [hd]; rfl)
    rw [lineOf, List.takeWhile_cons_of_pos (by simpa using ne_newline_of_isspace hb)]
    exact iff_of_false (List.cons_ne_nil _ _) (List.cons_ne_nil _ _)

/-- Behind two words there is another if and only if the text has three. -/
theorem third_word_iff (S : Bytes) :
    tokens (afterFirstWord (afterFirstWord S)) ≠ [] ↔ 3 ≤ (tokens S).length := by
  rw [tokens_afterFirstWord, tokens_afterFirstWord, ← List.length_pos_iff, List.length_tail,
    List.length_tail]
  omega

/-- The status, behind a code that is a number. -/
theorem asks_parseStatus {s : SocketStream} {c : Cursor} (h : Tracks s c)
    (hpos : c.pos ≤ c.text.length) (hend : c.visibleLineEnd + 1 < 2 ^ 32) (version : Bytes)
    (code : UInt32) :
    ∃ o, Asks enforced (parseStatus enforced version code) s o (tokens c.rest ≠ [])
      (VisibleLegal c.rest) := by
  obtain ⟨s1, htr1, hask1⟩ := asks_nextLine enforced h (Cursor.nextLine_true hpos)
    (Nat.le_of_lt hend)
  have hask2 := asks_passedBuffer enforced htr1
  have hrest : ∀ (refused : Prop) [Decidable refused] (r : Option (Bytes × UInt32 × Bytes)),
      Asks enforced (if refused then pure none else pure r :
        CheckedM (Option (Bytes × UInt32 × Bytes))) s1 (.ok (if refused then none else r) s1)
        True True := by
    intro refused _ r
    split
    · exact Asks.pure none s1
    · exact Asks.pure r s1
  refine ⟨_, Asks.congr (Asks.bind hask1 (Asks.bind hask2 (hrest _ _))) ?_ ?_⟩
  · rw [rawLine_ne_nil_iff, and_true, and_true]
  · simp

/-- **The status line.** -/
theorem asks_parseStatusLine {s : SocketStream} {S : Bytes} (h : Tracks s ⟨S, 0⟩)
    (hwords : (Cursor.mk S 0).afterWord.afterWord.pos < 2 ^ 32)
    (hline : (∃ n, stoul (firstWord (afterFirstWord S)) = .ok n) →
      thirdLineEnd S + 1 < 2 ^ 32) :
    ∃ s', (statusLineOf S ≠ none → Tracks s' ⟨S, (firstLine S).length + 1⟩) ∧
      Asks enforced (parseStatusLine enforced) s (.ok (statusLineOf S) s') (StatusBack S)
        (StatusLegal S) := by
  obtain ⟨s', hret, htr⟩ := parseStatusLine_reads h hwords hline
  refine ⟨s', htr, Asks.of_exists ?_ checks_parseStatusLine hret⟩
  have hle0 : (Cursor.mk S 0).pos ≤ (Cursor.mk S 0).text.length := Nat.zero_le _
  have hle1 := Cursor.afterWord_pos_le hle0
  have hle2 := Cursor.afterWord_pos_le hle1
  have hpos1 := (Cursor.mk S 0).afterWord.pos_le_afterWord
  obtain ⟨hword1, hword2, -⟩ := words_eq S
  obtain ⟨s1, htr1, hask1⟩ := asks_nextWord enforced h hle0 (by omega)
  obtain ⟨s2, htr2, hask2⟩ := asks_nextWord enforced htr1 hle1 hwords
  rw [hword1] at hask1
  rw [hword2] at hask2
  have hrest : (Cursor.mk S 0).afterWord.afterWord.rest = afterFirstWord (afterFirstWord S) := by
    rw [Cursor.rest_afterWord, Cursor.rest_afterWord]
    rfl
  -- The line with the third word is read only behind a second word that is a number.
  unfold parseStatusLine
  cases hcode : stoul (firstWord (afterFirstWord S)) with
  | error e =>
    refine ⟨_, Asks.congr (Asks.bind hask1 (Asks.bind hask2.caught
      (o := .ok none s2) (C := True) (U := True) ?_)) ?_ ?_⟩
    · rw [Except.bind, hcode]
      exact Asks.pure none s2
    · simp [StatusBack, hcode]
    · simp [StatusLegal, hcode]
  | ok n =>
    obtain ⟨o, hask3⟩ := asks_parseStatus enforced htr2 hle2 (hline ⟨n, hcode⟩) (firstWord S)
      (UInt32.ofNat n)
    rw [hrest] at hask3
    refine ⟨o, Asks.congr (Asks.bind hask1 (Asks.bind hask2.caught
      (C := tokens (afterFirstWord (afterFirstWord S)) ≠ [])
      (U := VisibleLegal (afterFirstWord (afterFirstWord S))) ?_)) ?_ ?_⟩
    · rw [Except.bind, hcode]
      exact hask3
    · simp [StatusBack, hcode, third_word_iff]
    · simp [StatusLegal, hcode, and_assoc]

/-! ### The parsers -/

/-- **Headers and body**, from a position at the start of a line. -/
theorem unviolated_message_iff {α : Type} (message : Headers → Bytes → α) {s : SocketStream}
    {c : Cursor} (h : Tracks s c) (hend : HeadersFit c.text.length c.rest) :
    Prog.Unviolated (do
        let headers ← parseHeaders enforced
        let body ← parseBody enforced
        pure (message headers body) : CheckedM α) s ↔
      (enforced .back = true → HeadersBack c.rest) ∧
      (enforced .ctype = true → HeadersLegal c.rest) := by
  obtain ⟨s1, c1, htr1, htext1, hrest1, hask⟩ := asks_headerLoop enforced ∅ h hend
  -- The body's first search for a token ends where the headers do, within the width.
  have hskip : c1.pos + (c1.rest.takeWhile isspace).length < 2 ^ 32 := by
    have hpos32 : c1.pos < 2 ^ 32 := htr1.pos_lt
    have hlen : c1.rest.length = c1.text.length - c1.pos := List.length_drop
    have hsplit := congrArg List.length
      (List.takeWhile_append_dropWhile (p := isspace) (l := c1.rest))
    rw [List.length_append] at hsplit
    have hvisible := hend.visible
    rw [htext1] at hlen
    rw [← hrest1] at hvisible
    omega
  have hbody := unviolated_parseBody_iff enforced htr1 hskip
  rw [hrest1] at hbody
  refine (Prog.Meets.unviolated_bind_iff hask).trans ?_
  rw [Prog.unviolated_map_iff, hbody, HeadersLegal]
  tauto

/-- The conditions of a first line, and of what is read behind it when it is accepted. -/
theorem first_then_iff {A b t B T B' T' U : Prop} (hU : U ↔ (A → (b → B') ∧ (t → T'))) :
    ((b → B) ∧ (t → T)) ∧ U ↔ (b → B ∧ (A → B')) ∧ (t → T ∧ (A → T')) := by
  rw [hU]
  simp only [imp_and, imp.swap (a := A)]
  exact and_and_and_comm

/-- **`parseRequest`** fails no check that is enforced if and only if the text meets the
    conditions. -/
theorem unviolated_parseRequest_iff {rs : List RecvResult} (h : HeadFits (delivered rs)) :
    Prog.Unviolated (parseRequest enforced) (.ofSocket rs) ↔
      (enforced .back = true → RequestBack (delivered rs)) ∧
      (enforced .ctype = true → RequestLegal (delivered rs)) := by
  -- The request line first; the headers and the body are read only if it was accepted.
  obtain ⟨s1, htr1, hask⟩ := asks_parseRequestLine enforced
    (SocketStream.tracks_ofSocket rs) h.words h.firstLine_lt
  unfold parseRequest
  refine (Prog.Meets.unviolated_bind_iff hask).trans (first_then_iff ?_)
  cases hreq : requestLineOf (firstLine (delivered rs)) with
  | none => exact iff_of_true (Prog.unviolated_pure none s1) fun hne => absurd rfl hne
  | some p =>
    have hne : requestLineOf (firstLine (delivered rs)) ≠ none := by
      rw [hreq]
      exact Option.some_ne_none p
    obtain ⟨hline, hmessage⟩ := h.headers (.inl hne)
    have htr := htr1 hne
    rw [Cursor.wrap_of_lt hline] at htr
    have hrest : (Cursor.mk (delivered rs) ((firstLine (delivered rs)).length + 1)).rest
        = afterFirstLine (delivered rs) := drop_length_lineOf newline _
    obtain ⟨method, resource, version⟩ := p
    have hiff := unviolated_message_iff enforced
      (fun headers body => some (HTTPRequest.mk method resource version headers body)) htr
      (by rw [hrest]; exact hmessage)
    rw [hrest] at hiff
    exact hiff.trans ⟨fun hmsg _ => hmsg, fun hmsg => hmsg (Option.some_ne_none _)⟩

/-- **`parseResponse`** likewise. -/
theorem unviolated_parseResponse_iff {rs : List RecvResult} (h : HeadFits (delivered rs)) :
    Prog.Unviolated (parseResponse enforced) (.ofSocket rs) ↔
      (enforced .back = true → ResponseBack (delivered rs)) ∧
      (enforced .ctype = true → ResponseLegal (delivered rs)) := by
  -- The status line first; the headers and the body are read only if it was accepted.
  obtain ⟨s1, htr1, hask⟩ := asks_parseStatusLine enforced
    (SocketStream.tracks_ofSocket rs) h.secondWord_lt h.status
  unfold parseResponse
  refine (Prog.Meets.unviolated_bind_iff hask).trans (first_then_iff ?_)
  cases hstatus : statusLineOf (delivered rs) with
  | none => exact iff_of_true (Prog.unviolated_pure none s1) fun hne => absurd rfl hne
  | some p =>
    have hne : statusLineOf (delivered rs) ≠ none := by
      rw [hstatus]
      exact Option.some_ne_none p
    have hrest : (Cursor.mk (delivered rs) ((firstLine (delivered rs)).length + 1)).rest
        = afterFirstLine (delivered rs) := drop_length_lineOf newline _
    obtain ⟨version, code, status⟩ := p
    have hiff := unviolated_message_iff enforced
      (fun headers body => some (HTTPResponse.mk version code status headers body)) (htr1 hne)
      (by rw [hrest]; exact (h.headers (.inr hne)).2)
    rw [hrest] at hiff
    exact hiff.trans ⟨fun hmsg _ => hmsg, fun hmsg => hmsg (Option.some_ne_none _)⟩

end Checked

end Evaluation
