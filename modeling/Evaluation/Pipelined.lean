import Evaluation.Service
import Evaluation.Truncation

namespace Evaluation

open Lib SocketStream HTTPWorker

/-!
# Messages behind one another

A client may send more than one message, or anything else, behind a message that is complete.  The
stream has no end of a message, so all that follows is taken for a part of the body, and the length
check sees it.

* `requestOf_trailing` — the request that is read has what follows in its body;
* `run_refusesTrailing` — so neither the first message nor what follows is executed: there is one
  reply, a refusal;
* `HTTPServer.serves_trailing` — and the other clients of a server are answered as if that client
  had not been there.
-/

namespace Message

/-- The message is one that a client may put before others: every line for the length states the
    length of the body. -/
structure Framed (m : Message) : Prop where
  method : m.method ≠ .UNKNOWN
  resource : IsWord m.resource
  colon : ∀ line ∈ m.lines, Evaluation.colon ∈ line
  newline : ∀ line ∈ m.lines, Evaluation.newline ∉ line
  length : ∀ line ∈ m.lines, nameOf line = contentLength → States (valueOf line) m.body.length

/-- The code with which a server refuses it when more follows. -/
def refusalCode (m : Message) : UInt32 :=
  if m.lines.any fun line => nameOf line = contentLength then 400 else 411

/-- A complete message is framed. -/
theorem Complete.framed {m : Message} (h : m.Complete) : m.Framed :=
  ⟨h.method, h.resource, h.colon, h.newline, h.length⟩

/-- A blank is an ASCII character. -/
theorem ascii_of_isspace : ∀ c, isspace c = true → c < 0x80 := byte_forall (by decide +kernel)

/-- A length is stated in ASCII. -/
theorem States.utf8 {value : Bytes} {n : ℕ} (h : States value n) : isUtf8 value = true := by
  obtain ⟨digits, blanks, rfl, -, hdigits, hblanks, -⟩ := h
  have hascii : ∀ c ∈ digits ++ blanks, c < 0x80 := by
    intro c hc
    rcases List.mem_append.mp hc with hc | hc
    · exact ascii_of_isdigit c (hdigits c hc)
    · exact ascii_of_isspace c (hblanks c hc)
  have h := isUtf8_ascii_append hascii []
  rwa [List.append_nil] at h

end Message

section

variable {m : Message} {rest : Bytes}

/-- What follows is a part of the body. -/
theorem text_append (m : Message) (rest : Bytes) :
    m.text ++ rest = m.requestLine ++ (crlf ++ (m.headers ++ (m.body ++ rest))) := by
  simp only [Message.text, List.append_assoc]

/-- The request line stands alone in a request with no headers. -/
theorem requestLineOf_framed (hm : m.Framed) :
    newline ∉ m.requestLine ∧
      requestLineOf (m.requestLine ++ [carriageReturn])
        = some (m.method, m.resource, bytes "HTTP/1.1") := by
  have hnl : newline ∉ m.requestLine := by
    show newline ∉ _ ++ space :: (_ ++ space :: _)
    simp only [List.mem_append, List.mem_cons, not_or]
    exact ⟨newline_not_mem_word (methodToString_word m.method), by decide,
      newline_not_mem_word hm.resource, by decide, newline_not_mem_word isWord_version⟩
  -- A request with this line and nothing else, so that its round trip gives the words of the line.
  let r : HTTPRequest := ⟨m.method, m.resource, bytes "HTTP/1.1", ∅, []⟩
  have hlists : Lists [] r.headers := rfl
  have hr : r.Sendable :=
    { method := hm.method
      resource := hm.resource
      version := isWord_version
      headers := portable_of_lists hlists (by simp) (by simp)
      body := .inl rfl }
  obtain ⟨_, -, hrequest⟩ := requestOf_toString hr hlists
  obtain ⟨hline, -, -⟩ := requestOf_eq_some hrequest
  have htext : r.toString [] = m.requestLine ++ (crlf ++ crlf) := by
    simp [HTTPRequest.toString, Message.requestLine, r]
  rw [htext, (firstLine_crlf hnl _).1] at hline
  exact ⟨hnl, hline⟩

/-- The length that the header map of the lines states is that of one of them. -/
theorem lookup_insertAll_lines (lines : List Bytes) :
    (∃ line ∈ lines, nameOf line = contentLength ∧
      (insertAll ∅ (lines.map fun line => ⟨nameOf line, valueOf line⟩)).lookup contentLength
        = some (valueOf line)) ∨
    ((∀ line ∈ lines, nameOf line ≠ contentLength) ∧
      (insertAll ∅ (lines.map fun line => ⟨nameOf line, valueOf line⟩)).lookup contentLength
        = none) := by
  -- The last line of that name gives the value, if there is one.
  by_cases hline : ∃ line ∈ lines, nameOf line = contentLength
  · obtain ⟨line, hmem, hname⟩ := hline
    have hfield : (⟨nameOf line, valueOf line⟩ : Field)
        ∈ lines.map fun line => ⟨nameOf line, valueOf line⟩ := List.mem_map.mpr ⟨line, hmem, rfl⟩
    obtain ⟨f, hf, hfname, hlookup⟩ := lookup_insertAll_of_mem ⟨_, hfield, hname⟩
    obtain ⟨line', hmem', rfl⟩ := List.mem_map.mp hf
    exact .inl ⟨line', hmem', hfname, hlookup⟩
  · push Not at hline
    refine .inr ⟨hline, ?_⟩
    rw [Option.eq_none_iff_forall_ne_some]
    intro value hlookup
    obtain ⟨pre, post, heq, -⟩ := lookup_insertAll.mp hlookup
    have hmem : (⟨contentLength, value⟩ : Field)
        ∈ lines.map fun line => ⟨nameOf line, valueOf line⟩ := by
      rw [heq]
      simp
    obtain ⟨line, hmem, hfield⟩ := List.mem_map.mp hmem
    exact hline line hmem (congrArg Sigma.fst hfield)

/-- **What is read** has all that follows in its body. -/
theorem requestOf_trailing (hm : m.Framed) (hrest : rest.all isspace = false) :
    requestOf (m.text ++ rest) = some ⟨m.method, m.resource, bytes "HTTP/1.1",
      insertAll ∅ (m.lines.map fun line => ⟨nameOf line, valueOf line⟩), m.body ++ rest⟩ := by
  obtain ⟨hnl, hline⟩ := requestLineOf_framed hm
  obtain ⟨hfirst, hafter⟩ := firstLine_crlf hnl (m.headers ++ (m.body ++ rest))
  have hvisible : (m.body ++ rest).all isspace = false := by
    rw [List.all_append, hrest, Bool.and_false]
  have hdrop : (m.headers ++ (m.body ++ rest)).drop m.headers.length = m.body ++ rest :=
    List.drop_left
  obtain ⟨hbody, hheaders⟩ := @bodyOf_fields_cut ∅ m.lines hm.colon hm.newline (m.body ++ rest)
    (m.headers ++ (m.body ++ rest)) (by rw [Message.headers, List.append_assoc])
  rw [← Message.headers, hdrop] at hbody hheaders
  rw [bodyOf_of_visible hvisible] at hbody
  rw [text_append, requestOf, hfirst, hafter, hline, ← hheaders hvisible, Option.map_some]
  simp only [hbody]

/-- The body that is read is longer than the one that is stated. -/
theorem not_passes_trailing {value : Bytes} (hvalue : Message.States value m.body.length)
    (hrest : rest ≠ []) (hlen : (m.body ++ rest).length < 2 ^ 32) :
    ¬ PassesLength value (m.body ++ rest) := by
  have hpos := List.length_pos_iff.mpr hrest
  rw [List.length_append] at hlen
  rw [passesLength_iff hvalue, List.length_append, Nat.mod_eq_of_lt (by omega)]
  omega

/-- A request with such a body is refused. -/
theorem checkParsed_trailing {json : Nlohmann} (hdoc : json.Documented) (hm : m.Framed)
    (hrest : rest ≠ []) {request : HTTPRequest} (hversion : request.version = bytes "HTTP/1.1")
    (hheaders : request.headers
      = insertAll ∅ (m.lines.map fun line => ⟨nameOf line, valueOf line⟩))
    (hbody : request.body = m.body ++ rest) (hlen : request.body.length < 2 ^ 32) :
    ∃ response, response.code = m.refusalCode ∧
      checkParsed json request = .error (.ok response) := by
  have hne : request.body ≠ [] := by
    rw [hbody]
    simp [hrest]
  rcases lookup_insertAll_lines m.lines with ⟨line, hmem, hname, hlookup⟩ | ⟨hnone, hlookup⟩
  · -- A length is stated, and that is the length of the body of the message alone.
    rw [← hheaders] at hlookup
    have hstates := hm.length line hmem hname
    have hfail : ¬ PassesLength (valueOf line) request.body := by
      rw [hbody] at hlen ⊢
      exact not_passes_trailing hstates hrest hlen
    obtain ⟨msg, hcheck, hmsg⟩ := checkParsed_fails json hversion hne hlookup hfail
    have hstatus : isUtf8 (bytes "Bad Request") = true := by decide +kernel
    obtain ⟨response, hresponse, hcode⟩ :=
      makeErrorResponse_ok hdoc 400 hstatus (hmsg.trans hstates.utf8)
    have hrefusal : m.refusalCode = 400 :=
      if_pos (List.any_eq_true.mpr ⟨line, hmem, decide_eq_true hname⟩)
    exact ⟨response, hcode.trans hrefusal.symm, hresponse ▸ hcheck⟩
  · -- No length is stated for a body that is not empty.
    rw [← hheaders] at hlookup
    have hstatus : isUtf8 (bytes "Length Required") = true := by decide +kernel
    have hmsg : isUtf8 (bytes "Content-Length header must be specified when sending a request body")
        = true := by decide +kernel
    obtain ⟨response, hresponse, hcode⟩ := makeErrorResponse_ok hdoc 411 hstatus hmsg
    have hrefusal : m.refusalCode = 411 := by
      unfold Message.refusalCode
      simpa using hnone
    exact ⟨response, hcode.trans hrefusal.symm,
      hresponse ▸ checkParsed_missing json hversion hne hlookup⟩

/-- **Nothing is executed** of a message that something follows: neither the message nor what
    follows.  There is one response, which refuses it. -/
theorem run_refusesTrailing {lib : Library} {worker : HTTPWorker} {p : Process}
    (hdoc : lib.json.Documented) (hm : m.Framed) (hrest : rest.all isspace = false)
    (hrecv : delivered (worker.socket.recvs p.world) = m.text ++ rest)
    (hread : Readable (m.text ++ rest)) : Refuses lib worker p m.refusalCode := by
  obtain ⟨s, hparse⟩ := parseRequest_reads (worker.socket.recvs p.world) (hrecv ▸ hread)
  rw [hrecv, requestOf_trailing hm hrest] at hparse
  have hne : rest ≠ [] := by
    rintro rfl
    cases hrest
  obtain ⟨response, hcode, hcheck⟩ :=
    checkParsed_trailing hdoc hm hne rfl rfl rfl (parseRequest_short hparse).2
  exact refuses_of_check hparse hcode hcheck

/-- A request for a query id. -/
def idText : Bytes := bytes "GET /v0/GetQueryID HTTP/1.1\r\n\r\n"

/-- A client that sends it behind a complete message, without waiting for an answer, and hangs
    up. -/
def pipelinedClient : Peer :=
  ⟨[some (feedbackMessage.text ++ bytes "GET /v0/Get"),
    some (bytes "QueryID HTTP/1.1\r\n\r\n"), none], .const .failed⟩

/-- The client sends a message and another one behind it. -/
theorem delivered_pipelinedClient :
    delivered pipelinedClient.recvs = feedbackMessage.text ++ idText := by decide +kernel

/-- Both together are readable. -/
theorem readable_pipelined : Readable (feedbackMessage.text ++ idText) :=
  readable_of_short (by decide +kernel)

/-- It gets no query id. -/
theorem run_refusesTrailing_id :
    Refuses Library.plain ⟨.ofFd 4⟩ (servingClient pipelinedClient.recvs) 400 :=
  run_refusesTrailing Nlohmann.plain_documented feedbackMessage_complete.framed
    (by decide +kernel : idText.all isspace = false) delivered_pipelinedClient readable_pipelined

/-! ### The other clients -/

/-- A single chunk delivers itself. -/
theorem delivered_single (S : Bytes) : delivered [some S] = S := by
  cases S with
  | nil => rfl
  | cons c S => exact List.append_nil _

/-- The reply is the same refusal whatever the counter is, and leaves it alone. -/
theorem replyTo_trailing {json : Nlohmann} (hdoc : json.Documented) (hm : m.Framed)
    (hrest : rest.all isspace = false) (hlen : (m.body ++ rest).length < 2 ^ 32) :
    ∃ response, response.code = m.refusalCode ∧ ∀ id,
      replyTo json id (requestOf (m.text ++ rest)) = .ok ⟨none, response, none⟩ ∧
        nextID json id (requestOf (m.text ++ rest)) = id := by
  have hne : rest ≠ [] := by
    rintro rfl
    cases hrest
  -- What is parsed: the bytes behind the message have become part of the body.
  let request : HTTPRequest := ⟨m.method, m.resource, bytes "HTTP/1.1",
    insertAll ∅ (m.lines.map fun line => ⟨nameOf line, valueOf line⟩), m.body ++ rest⟩
  obtain ⟨response, hcode, hcheck⟩ :=
    @checkParsed_trailing m rest json hdoc hm hne request rfl rfl rfl hlen
  refine ⟨response, hcode, fun id => ?_⟩
  have hchecked : checkRequest json (requestOf (m.text ++ rest)) = .error (.ok response) := by
    rw [requestOf_trailing hm hrest]
    exact hcheck
  constructor
  · simp only [replyTo, hchecked]
    rfl
  · simp [nextID, asksID, hchecked]

namespace HTTPServer

/-- **Such a client is not seen** by the others.  In a run that takes it in it gets one response, a
    refusal; and every other client gets what it gets in a run, of any server in any world, that
    differs in nothing but that this client has not been there. -/
theorem serves_trailing {lib lib' : Library} {server server' : HTTPServer} {p p' q q' : Process}
    {before after : List Bytes} (hdoc : lib.json.Documented) (hm : m.Framed)
    (hrest : rest.all isspace = false)
    (h : Serves lib server p (before ++ (m.text ++ rest) :: after) q)
    (hread : ∀ S ∈ before ++ (m.text ++ rest) :: after, Readable S)
    (hjson : lib'.json = lib.json) (hid : p'.queryID = p.queryID)
    (h' : Serves lib' server' p' (before ++ after) q') :
    ∃ responses response responses', response.code = m.refusalCode ∧
      responses.length = before.length ∧
      p.responsesSince q = responses ++ response :: responses' ∧
      p'.responsesSince q' = responses ++ responses' ∧ q'.queryID = q.queryID := by
  have hone := delivered_single (m.text ++ rest)
  obtain ⟨s, hparse⟩ := parseRequest_reads [some (m.text ++ rest)]
    (by rw [hone]; exact hread _ (by simp))
  rw [hone, requestOf_trailing hm hrest] at hparse
  obtain ⟨response, hcode, hreply⟩ :=
    replyTo_trailing hdoc hm hrest (parseRequest_short hparse).2
  -- The message with something behind it is refused and takes no id, so the service goes on as
  -- without it.
  have hstep : ∀ id, (service lib.json).step id (m.text ++ rest)
      = .ok (⟨none, response, none⟩, id) := by
    intro id
    obtain ⟨hto, hnext⟩ := hreply id
    simp only [service, hto, hnext]
    rfl
  obtain ⟨replies, hrun, hgiven⟩ := h.refines hread
  obtain ⟨first, id, reply, last, hreply', rfl, hlength, hwithout⟩ := Responder.run_skip
    (fun id reply id' hid => by rw [hstep] at hid; cases hid; rfl) hrun
  rw [hstep] at hreply'
  cases hreply'
  obtain ⟨replies', hrun', hgiven'⟩ := h'.refines fun S hS => hread S (by
    simp only [List.mem_append, List.mem_cons] at hS ⊢
    tauto)
  rw [hjson, hid, hwithout] at hrun'
  obtain ⟨rfl, hids⟩ := Prod.mk.injEq .. ▸ Except.ok.inj hrun'
  refine ⟨first.map Reply.response, response, last.map Reply.response, hcode, ?_, ?_, ?_,
    hids.symm⟩
  · rw [List.length_map, hlength]
  · rw [hgiven.responses, List.map_append, List.map_cons]
  · rw [hgiven'.responses, List.map_append]

/-- A server that has that client is in the same state as one that has had none. -/
theorem serves_trailing_id : ∃ q response,
    Serves Library.plain server8080 (visitedBy pipelinedClient)
      [feedbackMessage.text ++ idText] q ∧ response.code = 400 ∧
        (visitedBy pipelinedClient).responsesSince q = [response] ∧ q.queryID = 0 := by
  have hrest : idText.all isspace = false := by decide +kernel
  have hrun : ((HTTPWorker.run Library.plain ⟨.ofFd 4⟩).run 400
      (acceptedFrom pipelinedClient)).any (· matches .ok ..) = true := by decide +kernel
  obtain ⟨⟨worker, p⟩ | _, hreturns, ⟨⟩⟩ := Prog.ends_of_run hrun
  obtain ⟨q, hserves⟩ := serves_of_returns hreturns
  rw [delivered_pipelinedClient] at hserves
  obtain ⟨responses, response, responses', hcode, hlength, hresponses, hnone, hid⟩ :=
    @serves_trailing feedbackMessage idText Library.plain Library.plain server8080 server8080
      (visitedBy pipelinedClient) (visitedBy pipelinedClient) q
      (server8080.initialised (visitedBy pipelinedClient)) [] [] Nlohmann.plain_documented
      feedbackMessage_complete.framed hrest hserves
      (by intro S hS; rw [List.mem_singleton.mp hS]; exact readable_pipelined) rfl rfl
      ⟨hserves.1, .refl⟩
  obtain rfl := List.length_eq_zero_iff.mp hlength
  have hnone' : responses' = [] := by
    rw [List.nil_append] at hnone
    rw [← hnone]
    rfl
  rw [hnone'] at hresponses
  exact ⟨q, response, hserves, hcode, hresponses, hid.symm⟩

end HTTPServer

end

end Evaluation
