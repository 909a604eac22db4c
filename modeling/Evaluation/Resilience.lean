import Evaluation.Later
import Evaluation.LengthGate

namespace Evaluation

open Lib HTTPWorker

/-!
# Which clients a worker survives

`HTTPServer::run` serves one client after the other, in one thread; whatever ends a worker ends the
server.  Four things can keep it from coming back: an exception that escapes `HTTPWorker::run`, a
signal, a system call that never returns, and a text that is too long for the counter of
`TCPSocket::send`, which then sends for ever.

* `Quotable` — the length check quotes a header that it refuses in a JSON text, which `dump` does
  not build from bytes that are not UTF-8;
* `comesBack` — the guarantee that every part of a worker keeps: it ends normally, or a `::send`
  has raised SIGPIPE or never returns;
* `run_comesBack` — `HTTPWorker::run` keeps it for a client that is `Harmless`;
* `run_caught_iff`, `run_killed` — the clients that it does not come back from.
-/

/-- A `content-length` that is refused is valid UTF-8. -/
def Quotable (request : HTTPRequest) : Prop :=
  request.version = bytes "HTTP/1.1" → request.body ≠ [] →
    ∀ header, request.headers.lookup contentLength = some header →
      PassesLength header request.body ∨ isUtf8 header = true

/-- What a client may send: the cursor can follow it, a refusal can quote it, and the reply to it
    is made of texts that the counter of `send` can count. -/
structure Harmless (lib : Library) (S : Bytes) : Prop where
  readable : Readable S
  quotable : ∀ request, requestOf S = some request → Quotable request
  tersely : AnsweredTersely lib (requestOf S)

/-- What is read as a request is harmless if the refusal and the reply to it are. -/
theorem harmless_of_parse {lib : Library} {rs : List RecvResult} {request : HTTPRequest}
    {s : SocketStream}
    (hparse : parseRequest.Returns (SocketStream.ofSocket rs) (.ok (some request) s))
    (hread : Readable (delivered rs)) (hquotable : Quotable request)
    (htersely : AnsweredTersely lib (some request)) : Harmless lib (delivered rs) := by
  obtain ⟨s', hparse'⟩ := parseRequest_reads rs hread
  have hrequest : requestOf (delivered rs) = some request :=
    (Outcome.ok.inj (hparse'.unique hparse)).1
  refine ⟨hread, fun request' hrequest' => ?_, hrequest ▸ htersely⟩
  cases hrequest.symm.trans hrequest'
  exact hquotable

/-- A `::send` on a connection that has been reset, or one that never returns. -/
def FatalSend (p : Process) (halt : Halt) : Prop :=
  (halt = .sigpipe ∧ p.world.Pending .reset) ∨ (halt = .blocked ∧ p.world.Pending .blocked)

/-- Coming back, unless a `::send` is fatal. -/
def comesBack : Guarantee Halt Process where
  rel p p' := p.world.Later p'.world
  halts := FatalSend
  refl p := World.Later.refl p.world
  trans := World.Later.trans
  earlier h := Or.imp (And.imp_right (h.pending _ nofun)) (And.imp_right (h.pending _ nofun))

/-! ### Steps and responses -/

/-- A step on the world comes back if no new result turns up in it. -/
theorem onWorld_comesBack {α : Type} {f : World → α × World} (h : ∀ w : World, w.Later (f w).2) :
    comesBack.Kept (onWorld f) := Guarantee.kept_ofFun fun p => h p.world

/-- An event comes back. -/
theorem record_comesBack (event : Event) : comesBack.Kept (record event) :=
  Guarantee.kept_ofFun fun p => World.Later.refl p.world

/-- Sending a text that the counter can count comes back. -/
theorem socketSend_comesBack (sock : TCPSocket) {val : Bytes} (fullMsg : Bool)
    (hlen : val.length < 2 ^ 32) : comesBack.Kept (inWorld (sock.send val fullMsg)) := by
  intro p
  apply (Prog.ends_zoom ..).mpr
  cases hfd : sock.fd with
  | none =>
    unfold TCPSocket.send
    rw [hfd]
    exact (Prog.ends_pure ..).mpr (World.Later.refl p.world)
  | some fd =>
    -- An open socket: the message is below 2^32 bytes, so the loop ends.
    refine (TCPSocket.send_ends hfd fullMsg hlen p.world).mono ?_
    intro o ho
    cases o with
    | ok sent w' =>
      have hsent : World.Sent fd p.world w' := ho
      exact hsent.later
    | error halt w' =>
      obtain ⟨hsent, hfatal⟩ := ho
      refine ⟨hsent.later, ?_⟩
      exact hfatal.imp (And.imp_right fun h => .inl ⟨fd, h⟩) (And.imp_right fun h => .inl ⟨fd, h⟩)

section

variable {lib : Library}

/-- Sending a response that the counter can count comes back. -/
theorem send_comesBack (worker : HTTPWorker) {response : HTTPResponse}
    (hlen : (responseText lib response).length < 2 ^ 32) :
    comesBack.Kept (worker.send lib (.ok response)) := by
  intro p
  unfold HTTPWorker.send
  rw [ends_orUncaught_ok_bind, ends_record_bind]
  exact socketSend_comesBack worker.socket true hlen _

/-- A response that can be built is sent. -/
theorem reply_comesBack (worker : HTTPWorker) {response : Except Exn HTTPResponse}
    (h : ∃ r, response = .ok r ∧ (responseText lib r).length < 2 ^ 32) :
    comesBack.Kept (worker.reply lib response) := by
  obtain ⟨r, rfl, hlen⟩ := h
  refine (send_comesBack worker hlen).bind fun _ => ?_
  apply Guarantee.kept_pure

/-- One with a JSON body whose texts are valid UTF-8 can be built. -/
theorem ofJson_builds (hdoc : lib.json.Documented) (code : UInt32) (status : Bytes) {body : Json}
    (hbody : body.utf8 = true) : ∃ r, HTTPResponse.ofJson lib.json code status body = .ok r := by
  obtain ⟨r, hr, -⟩ := ofJson_ok hdoc code status hbody
  exact ⟨r, hr⟩

/-- An error response can be built too. -/
theorem makeErrorResponse_builds (hdoc : lib.json.Documented) (code : UInt32)
    {status msg : Bytes} (hstatus : isUtf8 status = true) (hmsg : isUtf8 msg = true) :
    ∃ r, HTTPResponse.makeErrorResponse lib.json code status msg = .ok r := by
  apply ofJson_builds hdoc
  rw [errorBody_utf8, hstatus, hmsg]
  rfl

/-! ### The clicked link -/

/-- A link that is taken out of a JSON text is valid UTF-8. -/
theorem clickedLink_utf8 {json : Nlohmann} (hdoc : json.Documented) {text link : Bytes}
    (h : clickedLink json text = .ok link) : isUtf8 link = true := by
  obtain ⟨body, hbody, h⟩ := ok_of_bind_ok h
  obtain ⟨results, hresults, h⟩ := ok_of_bind_ok h
  obtain ⟨clicked, -, h⟩ := ok_of_bind_ok h
  obtain ⟨index, -, h⟩ := ok_of_bind_ok h
  obtain ⟨elem, helem, h⟩ := ok_of_bind_ok h
  have hutf8 : results.utf8 = true := hdoc.utf8_of_atKey (hdoc.parse_utf8 text body hbody) hresults
  exact hdoc.isUtf8_of_toBytes (hdoc.utf8_of_atIndex hutf8 helem) h

/-- The checks of `v0reportSearchResults` end with a response or a link. -/
theorem reportedLink_builds (hdoc : lib.json.Documented) (request : HTTPRequest) :
    (∃ response, reportedLink lib.json request = .error response ∧ ∃ r, response = .ok r) ∨
      ∃ link, reportedLink lib.json request = .ok link ∧ isUtf8 link = true := by
  unfold reportedLink
  split
  · exact .inl ⟨_, rfl, makeErrorResponse_builds hdoc 405 (by decide +kernel) (by decide +kernel)⟩
  split
  · exact .inl ⟨_, rfl, makeErrorResponse_builds hdoc 400 (by decide +kernel) (by decide +kernel)⟩
  cases hlink : clickedLink lib.json request.body with
  | error e =>
    exact .inl ⟨_, rfl, makeErrorResponse_builds hdoc 400 (by decide +kernel) (by decide +kernel)⟩
  | ok link => exact .inr ⟨link, rfl, clickedLink_utf8 hdoc hlink⟩

/-- The request that reports a link can be built. -/
theorem linkRequest_builds (hdoc : lib.json.Documented) {link : Bytes}
    (hlink : isUtf8 link = true) : ∃ request, linkRequest lib.json link = .ok request := by
  have hbody : (Json.object [(bytes "click_count", .array [.integer 1]),
      (bytes "list_of_clicked_links", .array [.string link])]).utf8 = true := by
    simp only [Json.utf8, Json.utf8Members, Json.utf8Elems, hlink]
    decide +kernel
  obtain ⟨text, htext⟩ := hdoc.dump_ok _ none hbody
  unfold linkRequest HTTPRequest.ofJson
  rw [htext]
  exact ⟨_, rfl⟩

/-- **The exchange with Link Analysis.** -/
theorem forward_comesBack (hdoc : lib.json.Documented) {link : Bytes}
    (hlink : isUtf8 link = true)
    (hlen : ∀ report, linkRequest lib.json link = .ok report →
      (requestText lib report).length < 2 ^ 32) : comesBack.Kept (forward lib link) := by
  have hsend : ∀ sock, comesBack.Kept (sendLink lib sock link) := by
    intro sock p
    obtain ⟨report, hreport⟩ := linkRequest_builds hdoc hlink
    unfold sendLink
    rw [hreport, ends_orUncaught_ok_bind, ends_record_bind]
    exact socketSend_comesBack sock true (hlen report hreport) _
  have hconnect : ∀ sock ip, comesBack.Kept (connectLink lib sock ip link) := by
    intro sock ip
    refine (onWorld_comesBack (sock.later_connect ip _)).bind fun connected => ?_
    cases connected with
    | true => exact hsend sock
    | false => exact Guarantee.kept_pure false
  refine (onWorld_comesBack (TCPSocket.later_getIP _ _)).bind fun ip => ?_
  have hcreate : comesBack.Kept createLink :=
    Guarantee.kept_ofFun fun p => TCPSocket.later_create {} p.world
  -- The socket is destroyed at the end, whatever has come of the exchange.
  refine hcreate.bind fun created => ?_
  refine Guarantee.Kept.bind ?_ fun _ => onWorld_comesBack created.2.later_destroy
  unfold exchangeLink
  cases created.1 with
  | true => exact hconnect created.2 ip
  | false => exact Guarantee.kept_pure false

/-! ### The worker -/

/-- **The response of a handler** can be built. -/
theorem handlerResponse_builds (hdoc : lib.json.Documented) (id : UInt32) (request : HTTPRequest)
    (handler : Handler) : ∃ r, handlerResponse lib.json id request handler = .ok r := by
  cases handler with
  | v0getAutofill =>
    refine ofJson_builds hdoc 200 _ ?_
    simp only [Json.utf8, Json.utf8Members, Json.utf8Elems]
    decide +kernel
  | v0getQueryID =>
    refine ofJson_builds hdoc 200 _ ?_
    simp only [Json.utf8, Json.utf8Members]
    decide +kernel
  | v0reportSearchResults =>
    unfold handlerResponse
    -- Refused with a response that can be built, or taken and answered with an empty 200.
    rcases reportedLink_builds hdoc request with ⟨response, hrefused, hr⟩ | ⟨link, hlink, -⟩
    · rw [hrefused]
      exact hr
    · rw [hlink]
      exact ⟨_, rfl⟩
  | v0submitFeedback => exact ⟨_, rfl⟩
  | v0getQueryData =>
    refine ofJson_builds hdoc 200 _ ?_
    simp only [Json.utf8, Json.utf8Members, Json.utf8Elems]
    decide +kernel
  | v0reportMetrics => exact ⟨_, rfl⟩
  | notFound => exact makeErrorResponse_builds hdoc 404 (by decide +kernel) (by decide +kernel)

/-- Reporting a link comes back where response and report are short. -/
theorem reportLink_comesBack (hdoc : lib.json.Documented) (worker : HTTPWorker) {link : Bytes}
    (hutf8 : isUtf8 link = true) (hresponse : (responseText lib reportedResponse).length < 2 ^ 32)
    (hreport : ∀ report, link ≠ [] → linkRequest lib.json link = .ok report →
      (requestText lib report).length < 2 ^ 32) : comesBack.Kept (worker.reportLink lib link) := by
  refine (send_comesBack worker hresponse).bind fun _ => ?_
  split
  · exact Guarantee.kept_pure ()
  · rename_i hne
    refine forward_comesBack hdoc hutf8 fun report h => hreport report ?_ h
    rintro rfl
    exact hne rfl

/-- Every handler comes back. -/
theorem call_comesBack (hdoc : lib.json.Documented) (worker : HTTPWorker)
    {out : Option HTTPRequest} {request : HTTPRequest} (htersely : AnsweredTersely lib out)
    (hcheck : checkRequest lib.json out = .ok request) :
    comesBack.Kept (worker.call lib request (handlerMapper request.resource)) := by
  have hsent : ∀ id, ∃ r, handlerResponse lib.json id request (handlerMapper request.resource)
      = .ok r ∧ (responseText lib r).length < 2 ^ 32 := by
    intro id
    obtain ⟨r, hr⟩ := handlerResponse_builds hdoc id request (handlerMapper request.resource)
    exact ⟨r, hr, htersely.called hcheck hr⟩
  -- A fixed response, one with the next id, or a report that has a link.
  obtain hcall | ⟨-, hcall⟩ | ⟨link, hhandler, hlink, hcall⟩ :=
    call_cases lib worker request (handlerMapper request.resource)
  · rw [hcall 0]
    exact reply_comesBack worker (hsent 0)
  · rw [hcall]
    refine Guarantee.Kept.bind ?_ fun id => reply_comesBack worker (hsent id)
    exact Guarantee.kept_ofFun fun p => World.Later.refl p.world
  · rw [hcall]
    obtain ⟨hresponse, hreport⟩ := htersely.reported hcheck hhandler hlink
    rcases reportedLink_builds hdoc request with ⟨response, hrefused, -⟩ | ⟨link', hlink', hutf8⟩
    · cases hlink.symm.trans hrefused
    · cases hlink.symm.trans hlink'
      exact reportLink_comesBack hdoc worker hutf8 hresponse hreport

/-- The checks of `run` end with a request to dispatch or a response that can be built. -/
theorem checkRequest_builds (hdoc : lib.json.Documented) {out : Option HTTPRequest}
    (hquotable : ∀ request, out = some request → Quotable request) :
    (∃ request, checkRequest lib.json out = .ok request) ∨
      ∃ response, checkRequest lib.json out = .error response ∧ ∃ r, response = .ok r := by
  have hbad : isUtf8 (bytes "Bad Request") = true := by decide +kernel
  cases out with
  | none => exact .inr ⟨_, rfl, makeErrorResponse_builds hdoc 400 hbad (by decide +kernel)⟩
  | some request =>
    show (∃ request', checkParsed lib.json request = .ok request') ∨
      ∃ response, checkParsed lib.json request = .error response ∧ ∃ r, response = .ok r
    by_cases hadmitted : Admitted request
    · exact .inl ⟨request, checkParsed_admitted lib.json hadmitted⟩
    right
    by_cases hversion : request.version = bytes "HTTP/1.1"
    · have hbody : request.body ≠ [] := fun hbody => hadmitted ⟨hversion, .inl hbody⟩
      cases hheader : request.headers.lookup contentLength with
      | none =>
        -- No part of the request is quoted.
        refine ⟨_, checkParsed_missing lib.json hversion hbody hheader, ?_⟩
        exact makeErrorResponse_builds hdoc 411 (by decide +kernel) (by decide +kernel)
      | some header =>
        have hfail : ¬ PassesLength header request.body :=
          fun hpass => hadmitted ⟨hversion, .inr ⟨header, hheader, hpass⟩⟩
        -- The refusal quotes the header, which is valid UTF-8.
        have hutf8 := (hquotable request rfl hversion hbody header hheader).resolve_left hfail
        obtain ⟨msg, hcheck, hmsg⟩ := checkParsed_fails lib.json hversion hbody hheader hfail
        exact ⟨_, hcheck, makeErrorResponse_builds hdoc 400 hbad (hmsg.trans hutf8)⟩
    · refine ⟨_, if_pos hversion, ?_⟩
      exact makeErrorResponse_builds hdoc 505 (by decide +kernel) (by decide +kernel)

/-- Every answer comes back. -/
theorem answer_comesBack (hdoc : lib.json.Documented) (worker : HTTPWorker)
    {out : Option HTTPRequest} (hquotable : ∀ request, out = some request → Quotable request)
    (htersely : AnsweredTersely lib out) : comesBack.Kept (worker.answer lib out) := by
  unfold answer
  rcases checkRequest_builds hdoc hquotable with ⟨request, hcheck⟩ | ⟨_, hcheck, r, rfl⟩
  · rw [hcheck]
    refine (record_comesBack _).bind fun _ => ?_
    exact call_comesBack hdoc worker htersely hcheck
  · rw [hcheck]
    exact reply_comesBack worker ⟨r, rfl, htersely.refused hcheck⟩

/-- What is left to read says nothing about what is to come. -/
theorem later_setRecvs (sock : TCPSocket) (recvs : List RecvResult) (w : World) :
    w.Later (sock.setRecvs recvs w) := by
  unfold TCPSocket.setRecvs
  cases sock.fd with
  | none => exact World.Later.refl w
  | some fd =>
    dsimp only
    cases hd : w.descriptors fd with
    | none => exact World.Later.refl w
    | some d =>
      refine (World.Later.refl w).set fd ?_
      rintro _ ⟨⟩ result hsend -
      exact .inl ⟨fd, d, hd, hsend⟩

/-- **`HTTPWorker::run`** comes back from a client that sends what is harmless. -/
theorem run_comesBack (hdoc : lib.json.Documented) {worker : HTTPWorker} {p : Process}
    (h : Harmless lib (delivered (worker.socket.recvs p.world))) :
    (worker.run lib).Ends p (comesBack.Post p) := by
  obtain ⟨s, hparse⟩ := parseRequest_reads _ h.readable
  apply (ends_run hparse _).mpr
  apply Guarantee.ends_of_rel
  · exact (worker.socket.later_setTimeout 10 .SO_RCVTIMEO p.world).trans (later_setRecvs ..)
  · exact (answer_comesBack hdoc _ h.quotable h.tersely).bind (fun _ => Guarantee.kept_pure _) _

/-! ### The clients that it does not survive -/

/-- A header that is not `Quotable` brings `run` down. -/
theorem run_uncaught (hdoc : lib.json.Documented) {worker : HTTPWorker} {p : Process}
    {request : HTTPRequest} {s : SocketStream}
    (hparse : parseRequest.Returns (SocketStream.ofSocket (worker.socket.recvs p.world))
      (.ok (some request) s)) (h : ¬ Quotable request) :
    (worker.run lib).Ends p fun o => ∃ p', o = .error (.uncaught .typeError) p' := by
  unfold Quotable at h
  push Not at h
  obtain ⟨hversion, hbody, header, hheader, hfail, hutf8⟩ := h
  obtain ⟨msg, hcheck, hmsg⟩ := checkParsed_fails lib.json hversion hbody hheader hfail
  rw [makeErrorResponse_throws hdoc 400 (by rw [hmsg, Bool.eq_false_iff]; exact hutf8)] at hcheck
  apply (ends_run hparse _).mpr
  unfold answer
  rw [checkRequest, hcheck]
  refine (reply_uncaught lib _ .typeError _).bind ?_ ?_
  · rintro _ _ ⟨⟩
  · rintro halt p' ⟨⟩
    exact ⟨_, rfl⟩

/-- **When an exception escapes `run`**, of the streams that the parser's cursor can follow and to
    which the reply is not too long. -/
theorem run_caught_iff (hdoc : lib.json.Documented) {worker : HTTPWorker} {p : Process}
    (hread : Readable (delivered (worker.socket.recvs p.world)))
    (htersely : AnsweredTersely lib (requestOf (delivered (worker.socket.recvs p.world)))) :
    ((worker.run lib).Ends p fun o => ∀ e p', o ≠ .error (.uncaught e) p') ↔
      ∀ request, requestOf (delivered (worker.socket.recvs p.world)) = some request →
        Quotable request := by
  constructor
  · intro hcaught request hrequest
    by_contra hquotable
    obtain ⟨s, hparse⟩ := parseRequest_reads _ hread
    rw [hrequest] at hparse
    obtain ⟨o, ho, p', rfl⟩ := run_uncaught hdoc hparse hquotable
    exact hcaught.of_returns ho _ p' rfl
  · intro hquotable
    refine (run_comesBack hdoc ⟨hread, hquotable, htersely⟩).mono ?_
    rintro o ho e p' rfl
    rcases ho.2 with ⟨⟨⟩, -⟩ | ⟨⟨⟩, -⟩

/-- The other end has reset the connection. -/
def IsReset (sock : TCPSocket) (w : World) : Prop :=
  ∃ fd d, sock.fd = some fd ∧ w.descriptors fd = some d ∧ d.peer.sends.head = .reset

/-- SIGPIPE has ended the process. -/
def Killed {σ α : Type} (o : Outcome Halt σ α) : Prop := ∃ s, o = .error .sigpipe s

theorem Killed.bind {σ α β : Type} {x : Prog Halt σ α} {f : α → Prog Halt σ β} {s : σ}
    (h : x.Ends s Killed) : (x >>= f).Ends s Killed := by
  refine h.bind ?_ ?_
  · rintro a s' ⟨_, ⟨⟩⟩
  · rintro halt s' ⟨_, ⟨⟩⟩
    exact ⟨s', rfl⟩

/-- Sending on a connection that has been reset is fatal. -/
theorem socketSend_killed {sock : TCPSocket} {w : World} (h : IsReset sock w) (val : Bytes)
    (fullMsg : Bool) : (sock.send val fullMsg).Ends w Killed := by
  obtain ⟨fd, d, hfd, hd, hsends⟩ := h
  unfold TCPSocket.send
  rw [hfd]
  apply Killed.bind
  have hsend : w.send fd (val.drop (0 : UInt32).toNat)
      = (.reset, (w.send fd (val.drop (0 : UInt32).toNat)).2) := by
    unfold World.send
    rw [hd]
    dsimp only
    rw [hsends]
  have hround : (TCPSocket.sendRound fd val fullMsg 0).Returns w (.error .sigpipe _) :=
    (Prog.returns_bind_of_ok (TCPSocket.returns_sendCall hsend) _).mpr
      ((Prog.returns_throw ..).mpr rfl)
  exact ⟨_, Prog.returns_loop_of_error hround, _, rfl⟩

/-- A response to a connection that has been reset. -/
theorem send_killed {worker : HTTPWorker} {p : Process} (h : IsReset worker.socket p.world)
    {response : Except Exn HTTPResponse} (hresponse : ∃ r, response = .ok r) :
    (worker.send lib response).Ends p Killed := by
  obtain ⟨r, rfl⟩ := hresponse
  unfold HTTPWorker.send
  rw [ends_orUncaught_ok_bind, ends_record_bind]
  refine (Prog.ends_zoom ..).mpr ((socketSend_killed h _ true).mono ?_)
  rintro _ ⟨w', rfl⟩
  exact ⟨_, rfl⟩

/-- No handler survives a connection that has been reset. -/
theorem call_killed (hdoc : lib.json.Documented) {worker : HTTPWorker} {p : Process}
    (h : IsReset worker.socket p.world) (request : HTTPRequest) (handler : Handler) :
    (worker.call lib request handler).Ends p Killed := by
  have hbuilds := fun id => handlerResponse_builds hdoc id request handler
  obtain hcall | ⟨-, hcall⟩ | ⟨link, -, -, hcall⟩ := call_cases lib worker request handler
  · rw [hcall 0]
    exact Killed.bind (send_killed h (hbuilds 0))
  · rw [hcall]
    apply (Prog.ends_bind_of_ok ((Prog.returns_ofFun ..).mpr rfl) _).mpr
    exact Killed.bind
      (@send_killed lib worker { p with queryID := p.queryID + 1 } h _ (hbuilds _))
  · rw [hcall]
    exact Killed.bind (send_killed h ⟨_, rfl⟩)

/-- Neither the time-out nor what has been read changes that. -/
theorem isReset_setTimeout {sock : TCPSocket} {w : World} (h : IsReset sock w)
    (timeoutMs : UInt32) (option : TimeoutOption) :
    IsReset (sock.setTimeout timeoutMs option w).2.1 (sock.setTimeout timeoutMs option w).2.2 := by
  obtain ⟨fd, d, hfd, hd, hsends⟩ := h
  have hfd' := (sock.setTimeout_fd timeoutMs option w).trans hfd
  obtain hsame | ⟨fd', sec, usec, hfd'', hset⟩ := sock.setTimeout_world timeoutMs option w
  · rw [hsame]
    exact ⟨fd, d, hfd', hd, hsends⟩
  · rw [hfd] at hfd''
    cases hfd''
    rw [hset]
    obtain ⟨-, hsame | ⟨d', r, t, hd', hupdate⟩⟩ := w.setsockopt_spec fd option sec usec
    · exact ⟨fd, d, hfd', by rw [hsame]; exact hd, hsends⟩
    · rw [hd] at hd'
      cases hd'
      refine ⟨fd, { d with recvTimeout := r, sendTimeout := t }, hfd', ?_, hsends⟩
      rw [hupdate, Function.update_self]

/-- Receiving leaves the connection reset. -/
theorem isReset_setRecvs {sock : TCPSocket} {w : World} (h : IsReset sock w)
    (recvs : List RecvResult) : IsReset sock (sock.setRecvs recvs w) := by
  obtain ⟨fd, d, hfd, hd, hsends⟩ := h
  refine ⟨fd, { d with peer := { d.peer with recvs } }, hfd, ?_, hsends⟩
  unfold TCPSocket.setRecvs
  rw [hfd]
  dsimp only
  rw [hd]
  exact Function.update_self ..

/-- **Every client that has reset its connection before it is answered** brings the server down,
    whatever it has sent. -/
theorem run_killed (hdoc : lib.json.Documented) {worker : HTTPWorker} {p : Process}
    (hread : Readable (delivered (worker.socket.recvs p.world)))
    (hquotable : ∀ request, requestOf (delivered (worker.socket.recvs p.world)) = some request →
      Quotable request)
    (hreset : IsReset worker.socket p.world) : (worker.run lib).Ends p Killed := by
  obtain ⟨s, hparse⟩ := parseRequest_reads _ hread
  apply (ends_run hparse _).mpr
  apply Killed.bind
  have hreset' := isReset_setRecvs (isReset_setTimeout hreset 10 .SO_RCVTIMEO) s.socket
  unfold answer
  rcases checkRequest_builds hdoc hquotable with ⟨request, hcheck⟩ | ⟨response, hcheck, hr⟩
  · rw [hcheck]
    unfold dispatch
    rw [ends_record_bind]
    exact call_killed hdoc hreset' request _
  · rw [hcheck]
    exact Killed.bind (send_killed hreset' hr)

end

end Evaluation
