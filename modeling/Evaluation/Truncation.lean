import Evaluation.LengthGate
import Evaluation.Wrapped

namespace Evaluation

open Lib SocketStream HTTPWorker

/-!
# Requests cut short

A complete message with a body (`Message.Complete`), and what `HTTPWorker::run` makes of a prefix
of it.  The stream cannot tell the end of a message from a pause, so everything depends on what
`parseRequest` and the length check see in the prefix.

* `requestOf_short` — inside the request line no version, or a wrong one;
* `requestOf_cut` — behind it the whole request line, and as body what has arrived of it, taken
  for no body at all when that is nothing but blanks;
* `truncated_spares` — so the prefix is executed unless it ends inside the request line, or names
  no endpoint, or has some visible part of the body that fails the length check.

A prefix of 2³² - 1 bytes that ends inside a header line is read again from its start (`Wraps`), and
one of 2³² bytes or more is never executed.
-/

/-- A request message with its header lines; the body is all of its body. -/
structure Message where
  method : Method
  resource : Bytes
  lines : List Bytes
  body : Bytes
  deriving DecidableEq

namespace Message

/-- A header line that states the length: digits, and blanks behind them. -/
def States (value : Bytes) (n : ℕ) : Prop :=
  ∃ digits blanks, value = digits ++ blanks ∧ digits ≠ [] ∧ (∀ c ∈ digits, isdigit c = true) ∧
    (∀ c ∈ blanks, isspace c = true) ∧ decimal digits = n

/-- The message is valid: there is a line for the length, and every such line states the length
    of the body, which is not empty. -/
structure Complete (m : Message) : Prop where
  method : m.method ≠ .UNKNOWN
  resource : IsWord m.resource
  colon : ∀ line ∈ m.lines, colon ∈ line
  newline : ∀ line ∈ m.lines, newline ∉ line
  stated : ∃ line ∈ m.lines, nameOf line = contentLength
  length : ∀ line ∈ m.lines, nameOf line = contentLength → States (valueOf line) m.body.length
  body : m.body ≠ []

/-- The request line. -/
def requestLine (m : Message) : Bytes :=
  m.method.methodToString ++ space :: (m.resource ++ space :: bytes "HTTP/1.1")

/-- The header lines and the empty line. -/
def headers (m : Message) : Bytes := (m.lines.flatMap fun line => line ++ crlf) ++ crlf

/-- All that stands before the body. -/
def head (m : Message) : Bytes := m.requestLine ++ (crlf ++ m.headers)

def text (m : Message) : Bytes := m.requestLine ++ (crlf ++ (m.headers ++ m.body))

/-- The prefix is seen to be incomplete: it ends inside the request line, or there is no endpoint
    anyway, or what has arrived of the body is not all blanks and fails the length check. -/
def Detects (m : Message) (P : Bytes) : Prop :=
  P.length < m.requestLine.length ∨ handlerMapper m.resource = .notFound ∨
    ((P.drop m.head.length).all isspace = false ∧
      ¬ (m.body.length < 2 ^ 64 ∧ m.body.length % 2 ^ 32 = (P.drop m.head.length).length))

/-- The same of a prefix that is read again from its start: there is no endpoint, or what is taken
    for the body fails the length check. -/
def DetectsWrapped (m : Message) (P : Bytes) : Prop :=
  handlerMapper m.resource = .notFound ∨
    ∀ header, (fields ∅ (afterFirstLine P)).1.lookup contentLength = some header →
      ¬ PassesLength header (wrappedBody P)

end Message

/-! ### Inside the request line -/

/-- The version is a word. -/
theorem isWord_version : IsWord (bytes "HTTP/1.1") := ⟨by decide, by decide +kernel⟩

/-- A request line has no newline in it. -/
theorem newline_not_mem_requestLine {m : Message} (hm : m.Complete) :
    newline ∉ m.requestLine := by
  show newline ∉ _ ++ space :: (_ ++ space :: _)
  simp only [List.mem_append, List.mem_cons, not_or]
  exact ⟨newline_not_mem_word (methodToString_word m.method), by decide,
    newline_not_mem_word hm.resource, by decide, newline_not_mem_word isWord_version⟩

/-- **Inside the request line** there are two words at most, or the third is not the version. -/
theorem requestOf_short {m : Message} (hm : m.Complete) {P : Bytes} (hP : P <+: m.requestLine)
    (hlen : P.length < m.requestLine.length) {r : HTTPRequest} (hr : requestOf P = some r) :
    r.version ≠ bytes "HTTP/1.1" := by
  have hnl : newline ∉ P := fun h => newline_not_mem_requestLine hm (hP.subset h)
  have hmethod := methodToString_word m.method
  obtain ⟨hline, -, -⟩ := requestOf_eq_some hr
  obtain ⟨-, htokens⟩ := requestLineOf_some hline
  rw [show firstLine P = P from lineOf_of_not_mem hnl] at htokens
  have hshort : ∀ {Q w : Bytes}, Q <+: w → (∀ c ∈ w, isspace c = false) →
      (words isspace Q).length ≤ 1 := by
    intro Q w hQ hw
    rcases words_of_prefix hQ hw with h | h <;> rw [h] <;> simp
  have hcount : (words isspace P).length = 3 := congrArg List.length htokens
  rcases prefix_append_cons_cases hP with hP0 | ⟨P1, rfl, hP1⟩
  · -- The first word is not ended.
    have := hshort hP0 hmethod.2
    omega
  rw [tokens, words_append_cons hmethod.1 hmethod.2 isspace_space] at htokens
  rw [words_append_cons hmethod.1 hmethod.2 isspace_space, List.length_cons] at hcount
  rcases prefix_append_cons_cases hP1 with hP1 | ⟨P2, rfl, hP2⟩
  · -- The second word is not ended.
    have := hshort hP1 hm.resource.2
    omega
  rw [words_append_cons hm.resource.1 hm.resource.2 isspace_space] at htokens
  rcases words_of_prefix hP2 isWord_version.2 with hnone | hone
  · rw [hnone] at htokens
    exact absurd (congrArg List.length htokens) (by simp)
  · -- The third word is what has arrived of the version.
    rw [hone] at htokens
    obtain ⟨-, -, hversion⟩ : _ ∧ _ ∧ P2 = r.version := by simpa using htokens
    rw [← hversion]
    rintro rfl
    exact absurd hlen (lt_irrefl _)

/-! ### Behind the request line -/

/-- What has arrived of a text that starts with a line and its CRLF: with the line, some part of
    the CRLF, or all of it and more. -/
theorem firstLine_cut {line : Bytes} (hline : newline ∉ line) {Q T : Bytes}
    (hQ : Q <+: crlf ++ T) :
    (firstLine (line ++ Q) = line ∨ firstLine (line ++ Q) = line ++ [carriageReturn]) ∧
      ((Q.length < 2 ∧ afterFirstLine (line ++ Q) = []) ∨
        ∃ R, R <+: T ∧ Q = crlf ++ R ∧ afterFirstLine (line ++ Q) = R) := by
  have hcr : newline ∉ line ++ [carriageReturn] := by
    simp only [List.mem_append, List.mem_singleton, not_or]
    exact ⟨hline, by decide⟩
  rcases prefix_append_cons_cases (w := [carriageReturn]) hQ with hQ | ⟨R, rfl, hR⟩
  · have hshort := hQ.length_le
    rcases List.prefix_cons_iff.mp hQ with rfl | ⟨Q', rfl, hQ'⟩
    · rw [List.append_nil]
      exact ⟨.inl (lineOf_of_not_mem hline), .inl ⟨by simp, afterLine_of_not_mem hline⟩⟩
    · rw [List.prefix_nil.mp hQ']
      exact ⟨.inr (lineOf_of_not_mem hcr), .inl ⟨by simp, afterLine_of_not_mem hcr⟩⟩
  · obtain ⟨hfirst, hafter⟩ := firstLine_crlf hline R
    exact ⟨.inr hfirst, .inr ⟨R, hR, rfl, hafter⟩⟩

/-- A line that no newline ends gives no body. -/
theorem bodyOf_fields_of_not_mem {R : Bytes} (h : newline ∉ R) (hs : Headers) :
    bodyOf (fields hs R).2 = [] := by
  have hafter : afterFirstLine R = [] := afterLine_of_not_mem h
  cases hblank : R.all isspace with
  | true =>
    rw [fields_blank hblank]
    exact if_pos hblank
  | false =>
    cases hsplit : splitField (popCR (firstLine R)) with
    | none =>
      rw [fields_noColon hblank hsplit, hafter]
      rfl
    | some f =>
      rw [fields_field hblank hsplit, hafter, fields_blank rfl]
      rfl

/-- Nothing of the body has arrived when no newline has. -/
theorem bodyOf_fields_none (hs : Headers) {R : Bytes} {n : ℕ} (hnl : newline ∉ R)
    (hlen : R.length ≤ n) :
    bodyOf (fields hs R).2 = bodyOf (R.drop n) ∧ (R.drop n).all isspace = true := by
  rw [bodyOf_fields_of_not_mem hnl, List.drop_eq_nil_of_le hlen]
  exact ⟨rfl, rfl⟩

/-- Behind the empty line the body is what has arrived, and the headers are complete. -/
theorem bodyOf_fields_crlf (hs : Headers) (part : Bytes) :
    bodyOf (fields hs (crlf ++ part)).2 = bodyOf part ∧
      (part.all isspace = false → (fields hs (crlf ++ part)).1 = hs) := by
  cases hblank : part.all isspace with
  | true =>
    have hall : (crlf ++ part).all isspace = true := by
      rw [List.all_append, hblank]
      rfl
    rw [fields_blank hall, bodyOf_of_blank hall, bodyOf_of_blank hblank]
    exact ⟨rfl, nofun⟩
  | false =>
    obtain ⟨c, hc, hspace⟩ := List.all_eq_false.mp hblank
    obtain ⟨hfst, hsnd⟩ := fields_crlf hs (.inr ⟨c, hc, Bool.eq_false_iff.mpr hspace⟩)
    rw [hsnd, bodyOf_of_visible hblank]
    exact ⟨rfl, fun _ => hfst⟩

/-- **The body** that is taken from a cut text is what has arrived of it, unless that is nothing
    but blanks. -/
theorem bodyOf_fields_cut (hs : Headers) {lines : List Bytes}
    (hcolon : ∀ line ∈ lines, colon ∈ line) (hnl : ∀ line ∈ lines, newline ∉ line) {body R : Bytes}
    (hR : R <+: (lines.flatMap fun line => line ++ crlf) ++ (crlf ++ body)) :
    bodyOf (fields hs R).2
        = bodyOf (R.drop ((lines.flatMap fun line => line ++ crlf) ++ crlf).length) ∧
      ((R.drop ((lines.flatMap fun line => line ++ crlf) ++ crlf).length).all isspace = false →
        (fields hs R).1 = insertAll hs (lines.map fun line => ⟨nameOf line, valueOf line⟩)) := by
  -- Induction on the lines: the text is cut in the first of them or behind it.
  induction lines generalizing hs R with
  | nil =>
    rcases prefix_append_cons_cases (w := [carriageReturn]) hR with hR | ⟨part, rfl, -⟩
    · -- Cut in the empty line.
      have hnl : newline ∉ R := fun h => absurd (hR.subset h) (by decide)
      obtain ⟨hbody, hblank⟩ :=
        bodyOf_fields_none hs (n := 2) hnl (hR.length_le.trans (by simp))
      refine ⟨hbody, ?_⟩
      intro hvisible
      exact absurd (hblank.symm.trans hvisible) (by decide)
    · exact bodyOf_fields_crlf hs part
  | cons line lines ih =>
    have hassoc : ∀ T : Bytes,
        line ++ (crlf ++ T) = (line ++ [carriageReturn]) ++ newline :: T := by
      intro T
      simp only [crlf, List.append_assoc, List.cons_append, List.nil_append]
    have hhead : newline ∉ line := hnl line (List.mem_cons_self ..)
    rw [List.flatMap_cons, List.append_assoc, List.append_assoc, hassoc] at hR
    rcases prefix_append_cons_cases hR with hR | ⟨R', rfl, hR'⟩
    · -- Cut in this line, which has not ended.
      have hnot : newline ∉ R := by
        intro h
        rcases List.mem_append.mp (hR.subset h) with h | h
        · exact hhead h
        · exact absurd h (by decide)
      have hlen := hR.length_le
      rw [List.length_append, List.length_singleton] at hlen
      obtain ⟨hbody, hblank⟩ := bodyOf_fields_none hs
        (n := (((line :: lines).flatMap fun line => line ++ crlf) ++ crlf).length) hnot (by
          have hcrlf : crlf.length = 2 := rfl
          simp only [List.flatMap_cons, List.length_append]
          omega)
      refine ⟨hbody, ?_⟩
      intro hvisible
      exact absurd (hblank.symm.trans hvisible) (by decide)
    · -- All of this line has arrived, and adds its field.
      have hdrop : (line ++ (crlf ++ R')).drop
          (((line :: lines).flatMap fun line => line ++ crlf) ++ crlf).length
            = R'.drop ((lines.flatMap fun line => line ++ crlf) ++ crlf).length := by
        rw [← List.append_assoc, List.flatMap_cons, List.append_assoc, List.length_append,
          List.drop_length_add_append]
      obtain ⟨hbody, hheaders⟩ := ih (hs.insert (nameOf line) (valueOf line))
        (fun l hl => hcolon l (List.mem_cons_of_mem _ hl))
        (fun l hl => hnl l (List.mem_cons_of_mem _ hl)) hR'
      rw [← hassoc, hdrop, fields_line hs (hcolon line (List.mem_cons_self ..)) hhead]
      exact ⟨hbody, hheaders⟩

/-- The request line is read, with the CR behind it or without. -/
theorem requestLineOf_requestLine {m : Message} (hm : m.Complete) :
    requestLineOf m.requestLine = some (m.method, m.resource, bytes "HTTP/1.1") ∧
      requestLineOf (m.requestLine ++ [carriageReturn])
        = some (m.method, m.resource, bytes "HTTP/1.1") := by
  have hmethod := methodToString_word m.method
  -- A carriage return behind the line is a blank, so the words are the same with it and without.
  have htokens : ∀ tail, words isspace (bytes "HTTP/1.1" ++ tail) = [bytes "HTTP/1.1"] →
      requestLineOf (m.requestLine ++ tail) = some (m.method, m.resource, bytes "HTTP/1.1") := by
    intro tail htail
    have hline : m.requestLine ++ tail = m.method.methodToString ++
        space :: (m.resource ++ space :: (bytes "HTTP/1.1" ++ tail)) := by
      simp only [Message.requestLine, List.append_assoc, List.cons_append]
    rw [requestLineOf, tokens, hline, words_append_cons hmethod.1 hmethod.2 isspace_space,
      words_append_cons hm.resource.1 hm.resource.2 isspace_space, htail]
    simp only [stringToMethod_methodToString hm.method, hm.method, if_false]
  constructor
  · have h := htokens [] (by decide +kernel)
    rwa [List.append_nil] at h
  · exact htokens [carriageReturn] (by decide +kernel)

/-- The first line of a prefix that reaches behind the request line. -/
theorem firstLine_of_prefix {m : Message} (hm : m.Complete) {P : Bytes} (hP : P <+: m.text)
    (hlen : m.requestLine.length ≤ P.length) :
    (firstLine P = m.requestLine ∨ firstLine P = m.requestLine ++ [carriageReturn]) ∧
      requestLineOf (firstLine P) = some (m.method, m.resource, bytes "HTTP/1.1") := by
  obtain ⟨Q, rfl⟩ := List.prefix_of_prefix_length_le (List.prefix_append m.requestLine _) hP hlen
  have hQ : Q <+: crlf ++ (m.headers ++ m.body) := (List.prefix_append_right_inj _).mp hP
  obtain ⟨hfirst, -⟩ := firstLine_cut (newline_not_mem_requestLine hm) hQ
  obtain ⟨hplain, hcr⟩ := requestLineOf_requestLine hm
  refine ⟨hfirst, ?_⟩
  rcases hfirst with h | h
  · rw [h]
    exact hplain
  · rw [h]
    exact hcr

/-- The header map of the whole message has its length. -/
theorem lookup_contentLength {m : Message} (hm : m.Complete) :
    ∃ value, (insertAll ∅ (m.lines.map fun line => ⟨nameOf line, valueOf line⟩)).lookup
        contentLength = some value ∧ Message.States value m.body.length := by
  obtain ⟨line, hline, hname⟩ := hm.stated
  have hmem : (⟨nameOf line, valueOf line⟩ : Field)
      ∈ m.lines.map fun line => ⟨nameOf line, valueOf line⟩ := List.mem_map_of_mem hline
  obtain ⟨f, hf, hfname, hlookup⟩ := lookup_insertAll_of_mem ⟨_, hmem, hname⟩
  obtain ⟨line', hline', rfl⟩ := List.mem_map.mp hf
  exact ⟨valueOf line', hlookup, hm.length line' hline' hfname⟩

/-- **Behind the request line**: the request is read with the body that has arrived, and with the
    length of the whole body when something visible of it has arrived. -/
theorem requestOf_cut {m : Message} (hm : m.Complete) {P : Bytes} (hP : P <+: m.text)
    (hlen : m.requestLine.length ≤ P.length) :
    ∃ hs, requestOf P = some ⟨m.method, m.resource, bytes "HTTP/1.1", hs,
        bodyOf (P.drop m.head.length)⟩ ∧
      ((P.drop m.head.length).all isspace = false → ∃ value, hs.lookup contentLength = some value ∧
        Message.States value m.body.length) := by
  obtain ⟨-, hline⟩ := firstLine_of_prefix hm hP hlen
  obtain ⟨Q, rfl⟩ := List.prefix_of_prefix_length_le (List.prefix_append m.requestLine _) hP hlen
  have hQ : Q <+: crlf ++ (m.headers ++ m.body) := (List.prefix_append_right_inj _).mp hP
  obtain ⟨-, hafter⟩ := firstLine_cut (newline_not_mem_requestLine hm) hQ
  -- What has arrived of the headers and the body.
  have hrest : bodyOf (fields ∅ (afterFirstLine (m.requestLine ++ Q))).2
        = bodyOf ((m.requestLine ++ Q).drop m.head.length) ∧
      (((m.requestLine ++ Q).drop m.head.length).all isspace = false →
        (fields ∅ (afterFirstLine (m.requestLine ++ Q))).1
          = insertAll ∅ (m.lines.map fun line => ⟨nameOf line, valueOf line⟩)) := by
    rw [Message.head, List.length_append, List.drop_length_add_append]
    rcases hafter with ⟨hshort, hnil⟩ | ⟨R, hR, rfl, hR'⟩
    · -- Cut in the CRLF of the request line.
      have hdrop : Q.drop (crlf ++ m.headers).length = [] := by
        refine List.drop_eq_nil_of_le ?_
        rw [List.length_append]
        have : crlf.length = 2 := rfl
        omega
      rw [hnil, hdrop, fields_blank rfl]
      exact ⟨rfl, nofun⟩
    · rw [hR', List.length_append, List.drop_length_add_append]
      refine @bodyOf_fields_cut ∅ m.lines hm.colon hm.newline m.body R ?_
      rw [← List.append_assoc]
      exact hR
  refine ⟨(fields ∅ (afterFirstLine (m.requestLine ++ Q))).1, ?_, ?_⟩
  · rw [requestOf, hline, ← hrest.1]
    rfl
  · intro hvisible
    rw [hrest.2 hvisible]
    exact lookup_contentLength hm

/-! ### What `run` does with it -/

/-- Between two traces no endpoint is called and no 200 response handed to `send`. -/
def Spared (before after : List Event) : Prop :=
  ∃ events, after = before ++ events ∧
    (∀ handler request, .dispatched handler request ∈ events → handler = .notFound) ∧
    ∀ response, .handed response ∈ events → response.code ≠ 200

/-- All along its run, whether or not that ends, `run` has called no endpoint and sent no 200
    response. -/
def Spares (lib : Library) (worker : HTTPWorker) (p : Process) : Prop :=
  (worker.run lib).Throughout p fun p' => Spared p.trace p'.trace

theorem Spared.refl (trace : List Event) : Spared trace trace :=
  ⟨[], (List.append_nil _).symm, nofun, nofun⟩

theorem Spared.trans {t t' t'' : List Event} (h : Spared t t') (h' : Spared t' t'') :
    Spared t t'' := by
  obtain ⟨events, rfl, hdispatched, hhanded⟩ := h
  obtain ⟨events', rfl, hdispatched', hhanded'⟩ := h'
  refine ⟨events ++ events', List.append_assoc .., ?_, ?_⟩
  · intro handler request hmem
    rcases List.mem_append.mp hmem with hmem | hmem
    · exact hdispatched handler request hmem
    · exact hdispatched' handler request hmem
  · intro response hmem
    rcases List.mem_append.mp hmem with hmem | hmem
    · exact hhanded response hmem
    · exact hhanded' response hmem

/-- A response that is no 200 spares. -/
theorem reply_spared (lib : Library) (worker : HTTPWorker) {response : Except Exn HTTPResponse}
    (hcode : ∀ r, response = .ok r → r.code ≠ 200) (p : Process) :
    (worker.reply lib response).Throughout p fun p' => Spared p.trace p'.trace := by
  cases response with
  | ok r =>
    refine (reply_handed lib worker r p).mono ?_
    intro p' hp'
    refine ⟨[.handed r], hp', by simp, ?_⟩
    intro r' hr'
    obtain rfl : r' = r := by simpa using hr'
    exact hcode r' rfl
  | error e => exact fun _ => Spared.refl _

/-- A resource that is no endpoint spares. -/
theorem dispatch_spared (lib : Library) (worker : HTTPWorker) {request : HTTPRequest}
    (hmapper : handlerMapper request.resource = .notFound) (p : Process) :
    (worker.dispatch lib request).Throughout p fun p' => Spared p.trace p'.trace := by
  unfold dispatch
  rw [throughout_record_bind, hmapper]
  have hcode : ∀ r, HTTPResponse.makeErrorResponse lib.json 404 (bytes "Not Found")
      (bytes "Resource (API function) not found") = .ok r → r.code ≠ 200 := by
    intro r hr
    rw [makeErrorResponse_code hr]
    decide
  refine (reply_spared lib worker hcode _).mono ?_
  intro p' hp'
  exact Spared.trans ⟨[.dispatched .notFound request], rfl, by simp, by simp⟩ hp'

/-- A call of an endpoint shows in the trace. -/
theorem dispatch_not_spared (lib : Library) (worker : HTTPWorker) {request : HTTPRequest}
    (hmapper : handlerMapper request.resource ≠ .notFound) (p : Process) :
    (worker.dispatch lib request).Throughout p fun p' => ¬ Spared p.trace p'.trace := by
  refine (dispatch_dispatched lib worker request p).mono ?_
  rintro p' hp' ⟨events, hevents, hdispatched, -⟩
  rw [hevents, List.prefix_append_right_inj] at hp'
  exact hmapper (hdispatched _ request (hp'.subset (List.mem_singleton_self _)))

section

variable {lib : Library} {worker : HTTPWorker} {p : Process}

/-- An answer executes nothing unless an admitted request names an endpoint. -/
theorem answer_spared (worker : HTTPWorker) {request : Option HTTPRequest}
    (h : ∀ r, request = some r → Admitted r → handlerMapper r.resource = .notFound)
    (p : Process) :
    (worker.answer lib request).Throughout p fun p' => Spared p.trace p'.trace := by
  unfold answer
  cases request with
  | none =>
    -- What is no request is answered with 400.
    refine reply_spared lib worker ?_ p
    intro r hr
    rw [makeErrorResponse_code hr]
    decide
  | some r =>
    by_cases hadmitted : Admitted r
    · rw [checkRequest, checkParsed_admitted lib.json hadmitted]
      exact dispatch_spared lib worker (h r rfl hadmitted) p
    · -- A refusal is an error response, or cannot be built.
      obtain ⟨response, hcheck, hcode⟩ := checkParsed_refused lib.json hadmitted
      rw [checkRequest, hcheck]
      exact reply_spared lib worker hcode p

/-- So does a run. -/
theorem spares_of_answer (h : ∀ r s, parseRequest.Returns
    (ofSocket (worker.socket.recvs p.world)) (.ok (some r) s) → Admitted r →
      handlerMapper r.resource = .notFound) : Spares lib worker p := by
  refine run_throughout (fun q hq => ?_) fun worker' request s p' hparse hp' => ?_
  · rw [hq]
    exact Spared.refl _
  · rw [← hp']
    refine answer_spared worker' ?_ p'
    rintro r rfl
    exact h r s hparse

/-- **What was parsed** decides: an admitted request for an endpoint is executed, and nothing
    else is. -/
theorem spares_iff_of_parse {request : Option HTTPRequest} {s : SocketStream}
    (hparse : parseRequest.Returns (ofSocket (worker.socket.recvs p.world)) (.ok request s)) :
    Spares lib worker p ↔
      ∀ r, request = some r → Admitted r → handlerMapper r.resource = .notFound := by
  constructor
  · rintro hspares r rfl hadmitted
    by_contra hmapper
    -- The endpoint is called, whatever comes of it.
    obtain ⟨worker', p', htrace, hrun⟩ := @run_of_parse lib worker p (some r) s hparse
    have hcalled : (worker'.answer lib (some r)).Settles p'
        fun q => ¬ Spared p.trace q.trace := by
      unfold answer
      rw [checkRequest, checkParsed_admitted lib.json hadmitted, ← htrace]
      exact (dispatch_not_spared lib worker' hmapper p').settles
    obtain ⟨n, hnot⟩ := (hrun _ hcalled).exists
    exact hnot (hspares n)
  · intro h
    refine spares_of_answer fun r s' hparse' => ?_
    cases hparse.unique hparse'
    exact h r rfl

/-- A stream on which no request is returned is answered with 400, or not at all. -/
theorem spares_of_no_request (hparse : ∀ r s, ¬ parseRequest.Returns
    (ofSocket (worker.socket.recvs p.world)) (.ok (some r) s)) : Spares lib worker p :=
  spares_of_answer fun r s hr => absurd hr (hparse r s)

end

/-! ### Truncation -/

/-- The length that a message states passes for a part of its body when it fits 64 bits and is
    congruent to the length of the part. -/
theorem passesLength_iff {value part : Bytes} {n : ℕ} (h : Message.States value n) :
    PassesLength value part ↔ n < 2 ^ 64 ∧ n % 2 ^ 32 = part.length := by
  obtain ⟨digits, blanks, rfl, hne, hdigits, hblanks, rfl⟩ := h
  -- The digits end where the blanks begin.
  have hhead : ∀ c ∈ blanks.head?, isdigit c = false := by
    intro c hc
    have hspace := hblanks c (List.mem_of_mem_head? hc)
    by_contra hdigit
    rw [isspace_eq_false_of_isdigit c (by simpa using hdigit)] at hspace
    cases hspace
  unfold PassesLength
  rw [stoul_digits digits blanks hne hdigits hhead]
  by_cases hlarge : 2 ^ 64 ≤ decimal digits
  · -- `stoul` throws on a length past 64 bits.
    rw [if_pos hlarge]
    refine iff_of_false ?_ fun h => by omega
    rintro ⟨n, hn, -⟩
    cases hn
  · rw [if_neg hlarge]
    simp only [Except.ok.injEq, exists_eq_left', Nat.lt_of_not_le hlarge, true_and]

/-- **What a prefix denotes** is executed exactly when it is not seen to be incomplete. -/
theorem detects_iff {m : Message} (hm : m.Complete) {P : Bytes} (hP : P <+: m.text) :
    (∀ r, requestOf P = some r → Admitted r → handlerMapper r.resource = .notFound) ↔
      m.Detects P := by
  by_cases hshort : P.length < m.requestLine.length
  · have hpre : P <+: m.requestLine :=
      List.prefix_of_prefix_length_le hP (List.prefix_append _ _) (Nat.le_of_lt hshort)
    -- The version has not arrived.
    refine iff_of_true ?_ (.inl hshort)
    intro r hr hadmitted
    exact absurd hadmitted.1 (requestOf_short hm hpre hshort hr)
  obtain ⟨hs, hrequest, hlookup⟩ := requestOf_cut hm hP (Nat.le_of_not_lt hshort)
  unfold Message.Detects
  generalize P.drop m.head.length = part at hrequest hlookup ⊢
  simp only [hrequest, Option.some.injEq, forall_eq', hshort, false_or]
  by_cases hmapper : handlerMapper m.resource = .notFound
  · exact iff_of_true (fun _ => hmapper) (.inl hmapper)
  simp only [hmapper, imp_false, false_or]
  cases hblank : part.all isspace with
  | true =>
    -- Nothing is taken for the body, so there is no length to check.
    refine iff_of_false (not_not.mpr ⟨rfl, .inl ?_⟩) fun h => Bool.noConfusion h.1
    exact bodyOf_of_blank hblank
  | false =>
    obtain ⟨value, hvalue, hstates⟩ := hlookup hblank
    have hne : part ≠ [] := by
      rintro rfl
      cases hblank
    simp only [true_and, ← passesLength_iff hstates]
    refine not_congr ⟨?_, ?_⟩
    · rintro ⟨-, hbody | ⟨header, hheader, hpass⟩⟩
      · exact absurd ((bodyOf_of_visible hblank).symm.trans hbody) hne
      · cases hvalue.symm.trans hheader
        rwa [bodyOf_of_visible hblank] at hpass
    · intro hpass
      refine ⟨rfl, .inr ⟨value, hvalue, ?_⟩⟩
      rwa [bodyOf_of_visible hblank]

/-- The names of the endpoints are short and have no colon. -/
theorem endpoint_resource {resource : Bytes} (h : handlerMapper resource ≠ .notFound) :
    resource.length < 30 ∧ colon ∉ resource := by
  unfold handlerMapper at h
  split_ifs at h with h1 h2 h3 h4 h5 h6
  · exact h1 ▸ by decide +kernel
  · exact h2 ▸ by decide +kernel
  · exact h3 ▸ by decide +kernel
  · exact h4 ▸ by decide +kernel
  · exact h5 ▸ by decide +kernel
  · exact h6 ▸ by decide +kernel
  · exact absurd rfl h

section

variable {lib : Library} {worker : HTTPWorker} {p : Process} {m : Message} {P : Bytes}

/-- A prefix that is parsed to nothing that is admitted for an endpoint is not executed. -/
theorem spares_of_parse (h : ∀ r s, parseRequest.Returns (ofSocket (worker.socket.recvs p.world))
    (.ok (some r) s) → Admitted r → handlerMapper r.resource = .notFound) :
    Spares lib worker p := by
  by_cases hsome : ∃ r s, parseRequest.Returns (ofSocket (worker.socket.recvs p.world))
      (.ok (some r) s)
  · obtain ⟨r, s, hparse⟩ := hsome
    rw [spares_iff_of_parse hparse]
    rintro _ ⟨⟩ hadmitted
    exact h r s hparse hadmitted
  · refine spares_of_no_request ?_
    intro r s hparse
    exact hsome ⟨r, s, hparse⟩

/-- A prefix that ends inside the request line, or names no endpoint, is not executed. -/
theorem spares_of_line (hm : m.Complete) (hP : P <+: m.text)
    (hrecv : delivered (worker.socket.recvs p.world) = P) (hlen : P.length < 2 ^ 32)
    (h : P.length < m.requestLine.length ∨ handlerMapper m.resource = .notFound) :
    Spares lib worker p := by
  subst hrecv
  refine spares_of_parse ?_
  intro r s hparse hadmitted
  have hline := requestLineOf_of_parse hlen hparse
  by_cases hshort : (delivered (worker.socket.recvs p.world)).length < m.requestLine.length
  · -- The version is not the one that is admitted.
    have hpre : delivered (worker.socket.recvs p.world) <+: m.requestLine :=
      List.prefix_of_prefix_length_le hP (List.prefix_append _ _) (Nat.le_of_lt hshort)
    have hrequest : ∃ r', requestOf (delivered (worker.socket.recvs p.world)) = some r' ∧
        r'.version = r.version := by
      rw [requestOf, hline]
      exact ⟨_, rfl, rfl⟩
    obtain ⟨r', hr', hversion⟩ := hrequest
    exact absurd (hversion.trans hadmitted.1) (requestOf_short hm hpre hshort hr')
  · obtain ⟨-, hwords⟩ := firstLine_of_prefix hm hP (Nat.le_of_not_lt hshort)
    rw [hline, Option.some.injEq, Prod.mk.injEq, Prod.mk.injEq] at hwords
    rw [hwords.2.1]
    exact h.resolve_left hshort

/-- A prefix with no newline is as long as the request line and its CR at most. -/
theorem length_of_no_newline (hP : P <+: m.text) (hno : newline ∉ P) :
    P.length ≤ m.requestLine.length + 1 := by
  have htext : m.text
      = (m.requestLine ++ [carriageReturn]) ++ newline :: (m.headers ++ m.body) := by
    simp only [Message.text, crlf, List.append_assoc, List.cons_append, List.nil_append]
  rw [htext] at hP
  rcases prefix_append_cons_cases hP with hpre | ⟨Q, rfl, -⟩
  · have hle := hpre.length_le
    rwa [List.length_append] at hle
  · exact absurd (List.mem_append_right _ (List.mem_cons_self ..)) hno

/-- A prefix of 2³² - 1 bytes with no newline names no endpoint, unless it ends inside the request
    line. -/
theorem notFound_of_no_newline (hP : P <+: m.text) (hno : newline ∉ P)
    (hlen : P.length + 1 = 2 ^ 32) : handlerMapper m.resource = .notFound := by
  by_contra hendpoint
  have hshort := (endpoint_resource hendpoint).1
  have hle := length_of_no_newline hP hno
  have hmethod : m.method.methodToString.length < 10 := by cases m.method <;> decide +kernel
  have hline : m.requestLine.length
      = m.method.methodToString.length + (m.resource.length + (bytes "HTTP/1.1").length + 2) := by
    simp only [Message.requestLine, List.length_append, List.length_cons]
    omega
  have hversion : (bytes "HTTP/1.1").length = 8 := by decide
  omega

/-- **A prefix on which the cursor does not wrap** is executed unless it is seen to be
    incomplete. -/
theorem spares_iff_detects (hm : m.Complete) (hP : P <+: m.text)
    (hrecv : delivered (worker.socket.recvs p.world) = P) (hlen : P.length < 2 ^ 32)
    (hwraps : ¬ Wraps P) : Spares lib worker p ↔ m.Detects P := by
  by_cases hnl : P.length + 1 = 2 ^ 32 ∧ newline ∉ P
  · -- The cursor wraps behind the request line, which is too long for an endpoint.
    have hnone := notFound_of_no_newline hP hnl.2 hnl.1
    exact iff_of_true (spares_of_line hm hP hrecv hlen (.inr hnone)) (.inr (.inl hnone))
  have hread : Readable P := by
    have hwords := thirdWordEnd_le P
    have hline := length_firstLine_le P
    refine ⟨by omega, ?_, fun _ => ⟨hlen, ?_⟩⟩
    · by_cases hshort : P.length + 1 < 2 ^ 32
      · omega
      · have hmem : newline ∈ P := by
          by_contra hno
          exact hnl ⟨by omega, hno⟩
        have hlt := length_firstLine_lt hmem
        omega
    · by_cases hshort : P.length + 1 < 2 ^ 32
      · exact .inl hshort
      · right
        by_contra hend
        exact hwraps ⟨by omega, hend⟩
  subst hrecv
  obtain ⟨s, hparse⟩ := parseRequest_reads (worker.socket.recvs p.world) hread
  rw [spares_iff_of_parse hparse]
  exact detects_iff hm hP

/-- **A prefix on which the cursor goes back to the start.** -/
theorem spares_iff_detectsWrapped (hm : m.Complete) (hP : P <+: m.text)
    (hrecv : delivered (worker.socket.recvs p.world) = P) (hwraps : Wraps P) :
    Spares lib worker p ↔ m.DetectsWrapped P := by
  have hlen := hwraps.1
  by_cases hmapper : handlerMapper m.resource = .notFound
  · refine iff_of_true (spares_of_line hm hP hrecv ?_ (.inr hmapper)) (.inl hmapper)
    omega
  have hnl := newline_mem_of_wraps hwraps
  have hreach : m.requestLine.length ≤ P.length := by
    by_contra hshort
    have hpre : P <+: m.requestLine :=
      List.prefix_of_prefix_length_le hP (List.prefix_append _ _) (by omega)
    exact newline_not_mem_requestLine hm (hpre.subset hnl)
  obtain ⟨hfirst, hwords⟩ := firstLine_of_prefix hm hP hreach
  -- No part of the request line of an endpoint has a colon.
  have hcolon : colon ∉ firstLine P := by
    have hmethod : colon ∉ m.method.methodToString := by cases m.method <;> decide +kernel
    have hline : colon ∉ m.requestLine := by
      show colon ∉ _ ++ space :: (_ ++ space :: _)
      simp only [List.mem_append, List.mem_cons, not_or]
      exact ⟨hmethod, by decide, (endpoint_resource hmapper).2, by decide, by decide +kernel⟩
    rcases hfirst with h | h
    · rw [h]
      exact hline
    · rw [h, List.mem_append, not_or]
      exact ⟨hline, by decide⟩
  subst hrecv
  obtain ⟨s, hparse⟩ := parseRequest_wraps hwraps hwords hcolon
  rw [spares_iff_of_parse hparse]
  have hbody : wrappedBody (delivered (worker.socket.recvs p.world)) ≠ [] := by
    have hvisible := visible_of_not_linesEnd hwraps.2
    unfold wrappedBody
    split
    · intro hnil
      rw [hnil] at hvisible
      cases hvisible
    · exact List.ne_nil_of_mem hnl
  simp only [Option.some.injEq, forall_eq', Message.DetectsWrapped, hmapper, false_or, imp_false,
    Admitted, true_and, hbody, not_exists, not_and]

end

/-- **A request cut short** is not executed exactly when so much has arrived that the cursor does
    not reach its end, or when the prefix is seen to be incomplete. -/
theorem truncated_spares {lib : Library} {worker : HTTPWorker} {p : Process} {m : Message}
    (hm : m.Complete) {P : Bytes} (hP : P <+: m.text)
    (hrecv : delivered (worker.socket.recvs p.world) = P) :
    Spares lib worker p ↔ 2 ^ 32 ≤ P.length ∨ (Wraps P ∧ m.DetectsWrapped P) ∨
      (P.length < 2 ^ 32 ∧ ¬ Wraps P ∧ m.Detects P) := by
  by_cases hlong : 2 ^ 32 ≤ P.length
  · refine iff_of_true (spares_of_no_request ?_) (.inl hlong)
    intro r s hparse
    have hlt := (parseRequest_short hparse).1
    rw [hrecv] at hlt
    omega
  have hlen : P.length < 2 ^ 32 := Nat.lt_of_not_le hlong
  by_cases hwraps : Wraps P
  · rw [spares_iff_detectsWrapped hm hP hrecv hwraps]
    simp only [hlong, hwraps, true_and, not_true_eq_false, false_and, and_false, or_false, false_or]
  · rw [spares_iff_detects hm hP hrecv hlen hwraps]
    simp only [hlong, hlen, hwraps, false_and, not_false_eq_true, true_and, false_or]

/-- A message with a header of its own and five bytes of body. -/
def feedbackMessage : Message where
  method := .POST
  resource := bytes "/v0/SubmitFeedback"
  lines := [bytes "Host: a", bytes "Content-Length: 5 "]
  body := bytes "hello"

/-- The message of the failing input is complete. -/
theorem feedbackMessage_complete : feedbackMessage.Complete where
  method := by decide
  resource := ⟨by decide, by decide +kernel⟩
  colon := by decide +kernel
  newline := by decide +kernel
  stated := ⟨bytes "Content-Length: 5 ", by decide, by decide +kernel⟩
  length := by
    intro line hline hname
    rcases List.mem_pair.mp hline with rfl | rfl
    · exact absurd hname (by decide +kernel)
    · exact ⟨bytes "5", bytes " ", by decide +kernel, by decide, by decide +kernel,
        by decide +kernel, by decide +kernel⟩
  body := by decide

/-- The first three bytes of the body are seen not to be the whole of it. -/
theorem truncated_spares_body : Spares Library.plain ⟨.ofFd 4⟩ (servingClient [some (bytes
    "POST /v0/SubmitFeedback HTTP/1.1\r\nHost: a\r\nContent-Length: 5 \r\n\r\nhel"), none]) :=
  (truncated_spares feedbackMessage_complete (by decide +kernel) rfl).mpr
    (.inr (.inr ⟨by decide +kernel, fun h => absurd h.1 (by decide +kernel),
      .inr (.inr ⟨by decide +kernel, by decide +kernel⟩)⟩))

/-- Of a complete message nothing but the request line arrives, and the endpoint is called. -/
theorem truncated_spares_counterexample :
    feedbackMessage.Complete ∧
    (bytes "POST /v0/SubmitFeedback HTTP/1.1\r\n" <+: feedbackMessage.text ∧
      bytes "POST /v0/SubmitFeedback HTTP/1.1\r\n" ≠ feedbackMessage.text) ∧
    ¬ Spares Library.plain ⟨.ofFd 4⟩
      (servingClient [some (bytes "POST /v0/SubmitFeedback HTTP/1.1\r\n"), none]) := by
  refine ⟨feedbackMessage_complete, ⟨by decide +kernel, by decide +kernel⟩, ?_⟩
  intro hspares
  have hparse : parseRequest.Returns
      (ofSocket [some (bytes "POST /v0/SubmitFeedback HTTP/1.1\r\n"), none])
      (.ok (some ⟨.POST, bytes "/v0/SubmitFeedback", bytes "HTTP/1.1", ∅, []⟩) _) := ⟨200, rfl⟩
  have hmapper := (@spares_iff_of_parse Library.plain ⟨.ofFd 4⟩ (servingClient _) _ _ hparse).mp
    hspares _ rfl ⟨rfl, .inl rfl⟩
  exact absurd hmapper (by decide +kernel)

end Evaluation
