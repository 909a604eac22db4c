import Evaluation.Lib.Correct
import Evaluation.Parser
import Evaluation.TCPSocket

namespace Evaluation

open Lib

/-!
# `HTTPWorker` — answering one client

The class of `HTTPServer.h` / `HTTPServer.cpp` that is made for each connection: `run` reads a
request (`parseRequest`), checks its version and its length (`checkRequest`), and calls the member
function that `handlerMapper` names.

A `Process` is the world, the static counter of `v0getQueryID`, and a trace that only the proofs
look at: the responses handed to `send`, the handlers called, and the requests sent on to Link
Analysis.
-/

/-- What comes from outside the source: the JSON library, and the order in which the entries of
    an `unordered_map` are emitted. -/
structure Library where
  json : Nlohmann
  order : Headers → List Field
  lists : ∀ hs, Lists (order hs) hs

/-- The member functions that answer a request. -/
inductive Handler where
  | v0getAutofill
  | v0getQueryID
  | v0reportSearchResults
  | v0submitFeedback
  | v0getQueryData
  | v0reportMetrics
  | notFound
  deriving DecidableEq, Repr

def handlerMapper (resource : Bytes) : Handler :=
  if resource = bytes "/v0/GetAutofill" then .v0getAutofill
  else if resource = bytes "/v0/GetQueryID" then .v0getQueryID
  else if resource = bytes "/v0/ReportSearchResults" then .v0reportSearchResults
  else if resource = bytes "/v0/SubmitFeedback" then .v0submitFeedback
  else if resource = bytes "/v0/GetQueryData" then .v0getQueryData
  else if resource = bytes "/v0/ReportMetrics" then .v0reportMetrics
  else .notFound

/-- The events of the trace. -/
inductive Event where
  | handed (response : HTTPResponse)
  | dispatched (handler : Handler) (request : HTTPRequest)
  | forwarded (request : HTTPRequest)
  deriving DecidableEq

structure Process where
  world : World
  queryID : UInt32
  trace : List Event

/-- Programs of the server. -/
abbrev ServerM := Prog Halt Process

/-! ### Steps -/

/-- A step of the world. -/
def onWorld {α : Type} (f : World → α × World) : ServerM α :=
  Prog.ofFun fun p => .ok (f p.world).1 { p with world := (f p.world).2 }

/-- A program over the world. -/
def inWorld {α : Type} (x : Prog Halt World α) : ServerM α :=
  Prog.zoom Process.world (fun w p => { p with world := w }) x

def record (event : Event) : ServerM Unit :=
  Prog.modify fun p => { p with trace := p.trace ++ [event] }

/-- An exception that is not caught on the way ends the process. -/
def orUncaught {α : Type} : Except Exn α → ServerM α
  | .ok a => pure a
  | .error e => Prog.throw (.uncaught e)

/-- What the calls of `::recv` on a socket will give. -/
def TCPSocket.recvs (sock : TCPSocket) (w : World) : List RecvResult :=
  match sock.fd.bind w.descriptors with
  | none => []
  | some d => d.peer.recvs

/-- Leave other results of `::recv` for a socket. -/
def TCPSocket.setRecvs (sock : TCPSocket) (recvs : List RecvResult) (w : World) : World :=
  match sock.fd with
  | none => w
  | some fd => match w.descriptors fd with
    | none => w
    | some d => w.set fd (some { d with peer := { d.peer with recvs } })

structure HTTPWorker where
  socket : TCPSocket
  deriving DecidableEq, Repr

namespace HTTPWorker

/-- `m_socket.setTimeout<SO_RCVTIMEO>(10)`, after which `::recv` returns -1 on a connection that
    stays silent; the result is not looked at. -/
def setTimeout (worker : HTTPWorker) : ServerM HTTPWorker :=
  onWorld fun w => (⟨(worker.socket.setTimeout 10 .SO_RCVTIMEO w).2.1⟩,
    (worker.socket.setTimeout 10 .SO_RCVTIMEO w).2.2)

/-- `HTTPWorker::parseRequest(m_socket)`. -/
def readRequest (worker : HTTPWorker) : ServerM (Option HTTPRequest) := do
  let request ← Prog.zoom (fun p => SocketStream.ofSocket (worker.socket.recvs p.world))
    (fun s p => { p with world := worker.socket.setRecvs s.socket p.world })
    (Prog.attempt parseRequest)
  orUncaught request

/-- `m_socket.send(response)`, for a response whose construction may throw. -/
def send (lib : Library) (worker : HTTPWorker) (response : Except Exn HTTPResponse) :
    ServerM Bool := do
  let response ← orUncaught response
  record (.handed response)
  inWorld (worker.socket.send (response.toString (lib.order response.headers)) true)

/-- `m_socket.send(response)` where the result is not looked at. -/
def reply (lib : Library) (worker : HTTPWorker) (response : Except Exn HTTPResponse) :
    ServerM Unit := do
  let _ ← worker.send lib response
  pure ()

/-! ### Handlers -/

def v0getAutofill (lib : Library) (worker : HTTPWorker) : ServerM Unit :=
  worker.reply lib (HTTPResponse.ofJson lib.json 200 (bytes "OK") (.object [(bytes "suggestions",
    .array [.string (bytes "Why is RPI so cool?"), .string (bytes "I love RPI"),
      .string (bytes "Best Food Near RPI")])]))

/-- `ID++`. -/
def nextQueryID : ServerM UInt32 :=
  Prog.ofFun fun p => .ok p.queryID { p with queryID := p.queryID + 1 }

def v0getQueryID (lib : Library) (worker : HTTPWorker) : ServerM Unit := do
  let id ← nextQueryID
  worker.reply lib (HTTPResponse.ofJson lib.json 200 (bytes "OK")
    (.object [(bytes "query_ID", .unsigned id.toNat)]))

def v0submitFeedback (lib : Library) (worker : HTTPWorker) : ServerM Unit :=
  worker.reply lib (.ok (HTTPResponse.ofStatus 200 (bytes "OK")))

def v0getQueryData (lib : Library) (worker : HTTPWorker) : ServerM Unit :=
  worker.reply lib (HTTPResponse.ofJson lib.json 200 (bytes "OK")
    (.object [(bytes "queries", .array [])]))

def v0reportMetrics (lib : Library) (worker : HTTPWorker) : ServerM Unit :=
  worker.reply lib (.ok (HTTPResponse.ofStatus 200 (bytes "OK")))

def notFound (lib : Library) (worker : HTTPWorker) : ServerM Unit :=
  worker.reply lib (HTTPResponse.makeErrorResponse lib.json 404 (bytes "Not Found")
    (bytes "Resource (API function) not found"))

/-- The body of the `try` of `v0reportSearchResults`. -/
def clickedLink (json : Nlohmann) (text : Bytes) : Except Exn Bytes := do
  let body ← json.parse text
  let results ← json.atKey body (bytes "results")
  let clicked ← json.atKey body (bytes "clicked")
  let clicked ← json.toUnsigned clicked
  let link ← json.atIndex results clicked.toNat
  json.toBytes link

/-- The checks of `v0reportSearchResults`: the clicked link, or the response that refuses the
    request. -/
def reportedLink (json : Nlohmann) (request : HTTPRequest) :
    Except (Except Exn HTTPResponse) Bytes :=
  if request.method ≠ .POST then
    .error (HTTPResponse.makeErrorResponse json 405 (bytes "Method Not Allowed")
      (bytes "Use POST for this API call"))
  else if request.headers.lookup (bytes "content-type") ≠ some (bytes "application/json") then
    .error (HTTPResponse.makeErrorResponse json 400 (bytes "Bad Request")
      (bytes "Missing / Incorrect `Content-Type` header (expected `application/json`)"))
  else match clickedLink json request.body with
    | .error _ =>
      .error (HTTPResponse.makeErrorResponse json 400 (bytes "Bad Request")
        (bytes "Improper format of request body."))
    | .ok link => .ok link

/-- The request that reports a clicked link to Link Analysis. -/
def linkRequest (json : Nlohmann) (link : Bytes) : Except Exn HTTPRequest := do
  let request ← HTTPRequest.ofJson json .POST (bytes "/evaluation/update_metadata")
    (.object [(bytes "click_count", .array [.integer 1]),
      (bytes "list_of_clicked_links", .array [.string link])])
  return { request with
    headers := request.headers.insert (bytes "Host")
      (bytes "lspt-link-analysis.cs.rpi.edu:1234") }

/-- `link_analysis_sock.send(request)`. -/
def sendLink (lib : Library) (sock : TCPSocket) (link : Bytes) : ServerM Bool := do
  let request ← orUncaught (linkRequest lib.json link)
  record (.forwarded request)
  inWorld (sock.send (request.toString (lib.order request.headers)) true)

/-- `LINK_ANALYSIS_DOMAIN` and `LINK_ANALYSIS_PORT`. -/
def linkAnalysisDomain : Bytes := bytes "lspt-link-analysis.cs.rpi.edu"

def linkAnalysisPort : UInt16 := 1234

/-- From the call of `connect` on. -/
def connectLink (lib : Library) (sock : TCPSocket) (ip link : Bytes) : ServerM Bool := do
  let connected ← onWorld (sock.connect ip linkAnalysisPort)
  if connected then sendLink lib sock link else pure false

/-- `link_analysis_sock.create()`. -/
def createLink : ServerM (Bool × TCPSocket) := onWorld fun w =>
  let r := ({} : TCPSocket).create w
  ((r.1, r.2.1), r.2.2)

/-- From the result of `create` on. -/
def exchangeLink (lib : Library) (created : Bool) (sock : TCPSocket) (ip link : Bytes) :
    ServerM Bool :=
  if created then connectLink lib sock ip link else pure false

/-- The exchange with Link Analysis; `link_analysis_sock` is destroyed at its end. -/
def forward (lib : Library) (link : Bytes) : ServerM Unit := do
  let ip ← onWorld (TCPSocket.getIP linkAnalysisDomain linkAnalysisPort)
  let created ← createLink
  let _ ← exchangeLink lib created.1 created.2 ip link
  onWorld fun w => ((), created.2.destroy w)

/-- `v0reportSearchResults` for a request that passes its checks. -/
def reportLink (lib : Library) (worker : HTTPWorker) (link : Bytes) : ServerM Unit := do
  let _ ← worker.send lib (.ok (HTTPResponse.ofStatus 200 (bytes "OK")))
  if link.isEmpty then pure () else forward lib link

def v0reportSearchResults (lib : Library) (worker : HTTPWorker) (request : HTTPRequest) :
    ServerM Unit :=
  match reportedLink lib.json request with
  | .error response => worker.reply lib response
  | .ok link => worker.reportLink lib link

/-! ### `run` -/

/-- The checks of `run` on a parsed request. -/
def checkParsed (json : Nlohmann) (request : HTTPRequest) :
    Except (Except Exn HTTPResponse) HTTPRequest :=
  if request.version ≠ bytes "HTTP/1.1" then
    .error (HTTPResponse.makeErrorResponse json 505 (bytes "HTTP Version Not Supported")
      (bytes "HTTP/1.1 Must be Used."))
  else if request.body.isEmpty then .ok request
  else match request.headers.lookup (bytes "content-length") with
    | none =>
      .error (HTTPResponse.makeErrorResponse json 411 (bytes "Length Required")
        (bytes "Content-Length header must be specified when sending a request body"))
    | some header => match stoul header with
      | .error _ =>
        .error (HTTPResponse.makeErrorResponse json 400 (bytes "Bad Request")
          (bytes "Specified content length (" ++ header ++ bytes ") is invalid"))
      | .ok n =>
        -- `content_length` is an `unsigned int`, the length a `size_t`.
        if (UInt32.ofNat n).toNat ≠ request.body.length then
          .error (HTTPResponse.makeErrorResponse json 400 (bytes "Bad Request")
            (bytes "Provided content length " ++ header
              ++ bytes " does not match actual content length "
              ++ toDecimal request.body.length))
        else .ok request

/-- The checks of `run`: the request, or the response that refuses it. -/
def checkRequest (json : Nlohmann) :
    Option HTTPRequest → Except (Except Exn HTTPResponse) HTTPRequest
  | none =>
    .error (HTTPResponse.makeErrorResponse json 400 (bytes "Bad Request")
      (bytes "Error parsing request."))
  | some request => checkParsed json request

/-- The call through the table of member functions. -/
def call (lib : Library) (worker : HTTPWorker) (request : HTTPRequest) : Handler → ServerM Unit
  | .v0getAutofill => worker.v0getAutofill lib
  | .v0getQueryID => worker.v0getQueryID lib
  | .v0reportSearchResults => worker.v0reportSearchResults lib request
  | .v0submitFeedback => worker.v0submitFeedback lib
  | .v0getQueryData => worker.v0getQueryData lib
  | .v0reportMetrics => worker.v0reportMetrics lib
  | .notFound => worker.notFound lib

def dispatch (lib : Library) (worker : HTTPWorker) (request : HTTPRequest) : ServerM Unit := do
  record (.dispatched (handlerMapper request.resource) request)
  worker.call lib request (handlerMapper request.resource)

/-- What `run` does with what `parseRequest` returned. -/
def answer (lib : Library) (worker : HTTPWorker) (request : Option HTTPRequest) : ServerM Unit :=
  match checkRequest lib.json request with
  | .error response => worker.reply lib response
  | .ok request => worker.dispatch lib request

/-- `HTTPWorker::run`; returns the worker as it is afterwards. -/
def run (lib : Library) (worker : HTTPWorker) : ServerM HTTPWorker := do
  let worker ← worker.setTimeout
  let request ← worker.readRequest
  worker.answer lib request
  pure worker

/-! ### The trace only grows -/

@[simp] theorem returns_onWorld_bind {α β : Type} (f : World → α × World) (k : α → ServerM β)
    (p : Process) (r : Outcome Halt Process β) :
    (onWorld f >>= k).Returns p r ↔
      (k (f p.world).1).Returns { p with world := (f p.world).2 } r :=
  Prog.returns_bind_of_ok ((Prog.returns_ofFun ..).mpr rfl) r

@[simp] theorem ends_onWorld_bind {α β : Type} (f : World → α × World) (k : α → ServerM β)
    (p : Process) (Q : Outcome Halt Process β → Prop) :
    (onWorld f >>= k).Ends p Q ↔
      (k (f p.world).1).Ends { p with world := (f p.world).2 } Q :=
  Prog.ends_bind_of_ok ((Prog.returns_ofFun ..).mpr rfl) Q

@[simp] theorem safe_onWorld_bind {α β : Type} (f : World → α × World) (k : α → ServerM β)
    (p : Process) (Q : Outcome Halt Process β → Prop) :
    (onWorld f >>= k).Safe p Q ↔
      (k (f p.world).1).Safe { p with world := (f p.world).2 } Q :=
  Prog.safe_bind_of_ok ((Prog.returns_ofFun ..).mpr rfl) Q

/-- A step on the world, as a triple. -/
theorem triple_onWorld {α : Type} {f : World → α × World} {I : Process → Prop}
    {J : α → Process → Prop} {Q : Halt → Process → Prop}
    (h : ∀ p, I p → J (f p.world).1 { p with world := (f p.world).2 }) :
    Prog.Triple I (onWorld f) J Q := Prog.triple_ofFun h

@[simp] theorem ends_record_bind {β : Type} (event : Event) (k : Unit → ServerM β) (p : Process)
    (Q : Outcome Halt Process β → Prop) :
    (record event >>= k).Ends p Q ↔ (k ()).Ends { p with trace := p.trace ++ [event] } Q :=
  Prog.ends_bind_of_ok ((Prog.returns_ofFun ..).mpr rfl) Q

@[simp] theorem ends_orUncaught_ok_bind {α β : Type} (a : α) (k : α → ServerM β) (p : Process)
    (Q : Outcome Halt Process β → Prop) :
    (orUncaught (.ok a) >>= k).Ends p Q ↔ (k a).Ends p Q :=
  Prog.ends_bind_of_ok ((Prog.returns_pure ..).mpr rfl) Q

@[simp] theorem safe_record_bind {β : Type} (event : Event) (k : Unit → ServerM β) (p : Process)
    (Q : Outcome Halt Process β → Prop) :
    (record event >>= k).Safe p Q ↔ (k ()).Safe { p with trace := p.trace ++ [event] } Q :=
  Prog.safe_bind_of_ok ((Prog.returns_ofFun ..).mpr rfl) Q

@[simp] theorem safe_orUncaught_ok_bind {α β : Type} (a : α) (k : α → ServerM β) (p : Process)
    (Q : Outcome Halt Process β → Prop) :
    (orUncaught (.ok a) >>= k).Safe p Q ↔ (k a).Safe p Q :=
  Prog.safe_bind_of_ok ((Prog.returns_pure ..).mpr rfl) Q

@[simp] theorem throughout_onWorld_bind {α β : Type} (f : World → α × World) (k : α → ServerM β)
    (p : Process) (Q : Process → Prop) :
    (onWorld f >>= k).Throughout p Q
      ↔ (k (f p.world).1).Throughout { p with world := (f p.world).2 } Q :=
  Prog.throughout_ofFun_bind rfl Q

@[simp] theorem throughout_record_bind {β : Type} (event : Event) (k : Unit → ServerM β)
    (p : Process) (Q : Process → Prop) :
    (record event >>= k).Throughout p Q
      ↔ (k ()).Throughout { p with trace := p.trace ++ [event] } Q :=
  Prog.throughout_ofFun_bind rfl Q

@[simp] theorem throughout_orUncaught_ok_bind {α β : Type} (a : α) (k : α → ServerM β)
    (p : Process) (Q : Process → Prop) :
    (orUncaught (.ok a) >>= k).Throughout p Q ↔ (k a).Throughout p Q :=
  Prog.throughout_ofFun_bind rfl Q

/-- Leaving in the trace what was there, whether or not the program ends. -/
def traceGrows : Guarantee Halt Process where
  rel p p' := p.trace <+: p'.trace
  halts _ _ := True
  refl p := List.prefix_refl p.trace
  trans := List.IsPrefix.trans
  earlier _ _ := trivial

theorem grows_onWorld {α : Type} (f : World → α × World) : traceGrows.Held (onWorld f) :=
  Guarantee.held_ofFun fun p => List.prefix_refl p.trace

theorem grows_record (event : Event) : traceGrows.Held (record event) :=
  Guarantee.held_ofFun fun p => List.prefix_append p.trace _

theorem grows_orUncaught {α : Type} (x : Except Exn α) : traceGrows.Held (orUncaught x) := by
  cases x with
  | ok a => exact Guarantee.held_pure a
  | error e => exact Guarantee.held_ofFun fun p => List.prefix_refl p.trace

/-- A program over the world has no part in the trace, for however long it runs. -/
theorem throughout_inWorld {α : Type} (x : Prog Halt World α) (p : Process) :
    (inWorld x).Throughout p fun p' => p'.trace = p.trace ∧ p'.queryID = p.queryID :=
  fun _ => ⟨rfl, rfl⟩

theorem grows_inWorld {α : Type} (x : Prog Halt World α) : traceGrows.Held (inWorld x) :=
  fun p _ => List.prefix_refl p.trace

theorem grows_send (lib : Library) (worker : HTTPWorker) (response : Except Exn HTTPResponse) :
    traceGrows.Held (worker.send lib response) := by
  refine (grows_orUncaught response).bind fun response => ?_
  refine (grows_record _).bind fun _ => ?_
  exact grows_inWorld _

theorem grows_reply (lib : Library) (worker : HTTPWorker) (response : Except Exn HTTPResponse) :
    traceGrows.Held (worker.reply lib response) :=
  (grows_send lib worker response).bind fun _ => Guarantee.held_pure ()

theorem grows_forward (lib : Library) (link : Bytes) :
    traceGrows.Held (forward lib link) := by
  have hsend : ∀ sock, traceGrows.Held (sendLink lib sock link) := by
    intro sock
    refine (grows_orUncaught _).bind fun request => ?_
    refine (grows_record _).bind fun _ => ?_
    exact grows_inWorld _
  have hconnect : ∀ sock ip, traceGrows.Held (connectLink lib sock ip link) := by
    intro sock ip
    refine (grows_onWorld _).bind fun connected => ?_
    cases connected with
    | true => exact hsend sock
    | false => exact Guarantee.held_pure false
  refine (grows_onWorld _).bind fun ip => (grows_onWorld _).bind fun created => ?_
  -- The socket is destroyed at the end of the scope, whether or not it was made.
  refine Guarantee.Held.bind ?_ fun _ => grows_onWorld _
  unfold exchangeLink
  cases created.1 with
  | true => exact hconnect created.2 ip
  | false => exact Guarantee.held_pure false

/-! ### What a request leaves in the trace -/

/-- A response is handed to `send` before anything is sent of it. -/
theorem send_handed (lib : Library) (worker : HTTPWorker) (response : HTTPResponse)
    (p : Process) : (worker.send lib (.ok response)).Throughout p
      fun p' => p'.trace = p.trace ++ [.handed response] := by
  unfold send
  rw [throughout_orUncaught_ok_bind, throughout_record_bind]
  exact (throughout_inWorld _ _).mono fun _ h => h.1

/-- A response is handed to `send`, and nothing else happens, however long it is sent. -/
theorem reply_handed (lib : Library) (worker : HTTPWorker) (response : HTTPResponse)
    (p : Process) : (worker.reply lib (.ok response)).Throughout p
      fun p' => p'.trace = p.trace ++ [.handed response] := by
  have hsend := send_handed lib worker response p
  exact hsend.bind fun _ p' hp' _ => hsend.of_returns hp'

/-- A response that cannot be built ends the process. -/
theorem reply_uncaught (lib : Library) (worker : HTTPWorker) (e : Exn) (p : Process) :
    (worker.reply lib (.error e)).Ends p fun o => o = .error (.uncaught e) p := by
  have hsend : (worker.send lib (.error e)).Returns p (.error (.uncaught e) p) := by
    refine (Prog.returns_bind_of_error ?_ _).mpr rfl
    exact (Prog.returns_throw ..).mpr rfl
  exact (Prog.ends_bind_of_error hsend _).mpr rfl

/-- Setting the time-out does not touch what `::recv` will give. -/
theorem setTimeout_recvs (sock : TCPSocket) (timeoutMs : UInt32) (option : TimeoutOption)
    (w : World) :
    (sock.setTimeout timeoutMs option w).2.1.recvs (sock.setTimeout timeoutMs option w).2.2
      = sock.recvs w := by
  unfold TCPSocket.recvs
  rw [TCPSocket.setTimeout_fd]
  obtain hsame | ⟨fd, sec, usec, hfd, hset⟩ := sock.setTimeout_world timeoutMs option w
  · rw [hsame]
  · rw [hset, hfd]
    obtain ⟨-, hsame | ⟨d, r, s, hd, hupdate⟩⟩ := w.setsockopt_spec fd option sec usec
    · rw [hsame]
    · simp only [hupdate, Option.bind_some, Function.update_self, hd]

/-- **`readRequest`** returns what `parseRequest` does, and leaves behind what it has not read. -/
theorem readRequest_returns {worker : HTTPWorker} {p : Process} {request : Option HTTPRequest}
    {s : SocketStream}
    (hparse : parseRequest.Returns (SocketStream.ofSocket (worker.socket.recvs p.world))
      (.ok request s)) :
    worker.readRequest.Returns p
      (.ok request { p with world := worker.socket.setRecvs s.socket p.world }) := by
  have hzoom : (Prog.zoom (fun p => SocketStream.ofSocket (worker.socket.recvs p.world))
      (fun s p => { p with world := worker.socket.setRecvs s.socket p.world })
      (Prog.attempt parseRequest) : ServerM _).Returns p
        (.ok (.ok request) { p with world := worker.socket.setRecvs s.socket p.world }) :=
    (Prog.returns_zoom ..).mpr (.inl ⟨.ok request, s, Prog.returns_attempt_of_ok hparse, rfl⟩)
  exact (Prog.returns_bind_of_ok hzoom _).mpr ((Prog.returns_pure ..).mpr rfl)

/-- `readRequest` ends as `parseRequest` does. -/
theorem readRequest_cases {worker : HTTPWorker} {p : Process}
    {o : Outcome Halt Process (Option HTTPRequest)} (h : worker.readRequest.Returns p o) :
    ∃ s, (∃ request, parseRequest.Returns (SocketStream.ofSocket (worker.socket.recvs p.world))
        (.ok request s) ∧
          o = .ok request { p with world := worker.socket.setRecvs s.socket p.world }) ∨
      ∃ e, o = .error (.uncaught e)
        { p with world := worker.socket.setRecvs s.socket p.world } := by
  obtain ⟨out, p', hread, hrest⟩ | ⟨halt, p', hread, -⟩ := (Prog.returns_bind ..).mp h
  · obtain ⟨result, s, hattempt, hout⟩ | ⟨halt, s, -, ⟨⟩⟩ := (Prog.returns_zoom ..).mp hread
    cases hout
    obtain ⟨request, s', hparse, hr⟩ | ⟨e, s', -, hr⟩ := (Prog.returns_attempt ..).mp hattempt
    · cases hr
      exact ⟨s, .inl ⟨request, hparse, (Prog.returns_pure ..).mp hrest⟩⟩
    · cases hr
      exact ⟨s, .inr ⟨e, (Prog.returns_throw ..).mp hrest⟩⟩
  · -- The exception is caught on the way, to be thrown again behind the parser.
    obtain ⟨result, s, -, ⟨⟩⟩ | ⟨halt, s, hattempt, -⟩ := (Prog.returns_zoom ..).mp hread
    obtain ⟨request, s', -, ⟨⟩⟩ | ⟨e, s', -, ⟨⟩⟩ := (Prog.returns_attempt ..).mp hattempt

/-- **`run`** goes on with what `parseRequest` returns. -/
theorem returns_run_iff {lib : Library} {worker : HTTPWorker} {p : Process}
    {request : Option HTTPRequest} {s : SocketStream}
    (hparse : parseRequest.Returns (SocketStream.ofSocket (worker.socket.recvs p.world))
      (.ok request s)) (o : Outcome Halt Process HTTPWorker) :
    let set := worker.socket.setTimeout 10 .SO_RCVTIMEO p.world
    (worker.run lib).Returns p o ↔
      (answer lib ⟨set.2.1⟩ request >>= fun _ => pure (⟨set.2.1⟩ : HTTPWorker)).Returns
        { p with world := set.2.1.setRecvs s.socket set.2.2 } o := by
  intro set
  have hrecvs : set.2.1.recvs set.2.2 = worker.socket.recvs p.world := setTimeout_recvs ..
  rw [← hrecvs] at hparse
  have hread := @readRequest_returns ⟨set.2.1⟩ { p with world := set.2.2 } request s hparse
  unfold run setTimeout
  rw [returns_onWorld_bind]
  exact Prog.returns_bind_of_ok hread o

/-- So its ends are those of the answer. -/
theorem ends_run {lib : Library} {worker : HTTPWorker} {p : Process}
    {request : Option HTTPRequest} {s : SocketStream}
    (hparse : parseRequest.Returns (SocketStream.ofSocket (worker.socket.recvs p.world))
      (.ok request s)) (Q : Outcome Halt Process HTTPWorker → Prop) :
    let set := worker.socket.setTimeout 10 .SO_RCVTIMEO p.world
    (worker.run lib).Ends p Q ↔
      (answer lib ⟨set.2.1⟩ request >>= fun _ => pure (⟨set.2.1⟩ : HTTPWorker)).Ends
        { p with world := set.2.1.setRecvs s.socket set.2.2 } Q :=
  exists_congr fun o => and_congr_left' (returns_run_iff hparse o)

/-- However `run` ends, it has answered what `parseRequest` returned, or `parseRequest` has
    thrown. -/
theorem run_cases {lib : Library} {worker : HTTPWorker} {p : Process}
    {o : Outcome Halt Process HTTPWorker} (h : (worker.run lib).Returns p o) :
    let set := worker.socket.setTimeout 10 .SO_RCVTIMEO p.world
    ∃ s, (∃ request, parseRequest.Returns (SocketStream.ofSocket (worker.socket.recvs p.world))
        (.ok request s) ∧
          (answer lib ⟨set.2.1⟩ request >>= fun _ => pure (⟨set.2.1⟩ : HTTPWorker)).Returns
            { p with world := set.2.1.setRecvs s.socket set.2.2 } o) ∨
      ∃ e, o = .error (.uncaught e) { p with world := set.2.1.setRecvs s.socket set.2.2 } := by
  intro set
  -- Setting the timeout does not touch what the client is going to send.
  have hrecvs : set.2.1.recvs set.2.2 = worker.socket.recvs p.world := setTimeout_recvs ..
  unfold run setTimeout at h
  have hset := (Prog.returns_bind_of_ok ((Prog.returns_ofFun ..).mpr rfl) _).mp h
  obtain ⟨request, p', hread, hrest⟩ | ⟨halt, p', hread, rfl⟩ := (Prog.returns_bind ..).mp hset
  · obtain ⟨s, ⟨request', hparse, hr⟩ | ⟨e, ⟨⟩⟩⟩ := readRequest_cases hread
    cases hr
    rw [← hrecvs]
    exact ⟨s, .inl ⟨request, hparse, hrest⟩⟩
  · obtain ⟨s, ⟨request, -, ⟨⟩⟩ | ⟨e, he⟩⟩ := readRequest_cases hread
    cases he
    exact ⟨s, .inr ⟨e, rfl⟩⟩

/-- In particular with the trace as it was. -/
theorem run_of_parse {lib : Library} {worker : HTTPWorker} {p : Process}
    {request : Option HTTPRequest} {s : SocketStream}
    (hparse : parseRequest.Returns (SocketStream.ofSocket (worker.socket.recvs p.world))
      (.ok request s)) :
    ∃ (worker' : HTTPWorker) (p' : Process), p'.trace = p.trace ∧ ∀ Q : Process → Prop,
      (worker'.answer lib request).Settles p' Q → (worker.run lib).Settles p Q := by
  let set := worker.socket.setTimeout 10 .SO_RCVTIMEO p.world
  refine ⟨⟨set.2.1⟩, { p with world := set.2.1.setRecvs s.socket set.2.2 }, rfl, ?_⟩
  intro Q hanswer
  have hrecvs : set.2.1.recvs set.2.2 = worker.socket.recvs p.world := setTimeout_recvs ..
  rw [← hrecvs] at hparse
  have hread := @readRequest_returns ⟨set.2.1⟩ { p with world := set.2.2 } request s hparse
  unfold run setTimeout
  apply (Prog.settles_bind_of_ok ((Prog.returns_ofFun ..).mpr rfl) Q).mpr
  apply (Prog.settles_bind_of_ok hread Q).mpr
  refine hanswer.bind fun _ p'' hp'' => ?_
  exact ((Prog.returns_pure ..).mpr rfl).settles_iff.mpr (hp''.settles_iff.mp hanswer)

/-- What holds with the trace as it was, and throughout the answer to what was read, holds
    throughout a run. -/
theorem run_throughout {lib : Library} {worker : HTTPWorker} {p : Process} {Q : Process → Prop}
    (hbefore : ∀ q, q.trace = p.trace → Q q)
    (hanswer : ∀ (worker' : HTTPWorker) request s p',
      parseRequest.Returns (SocketStream.ofSocket (worker.socket.recvs p.world)) (.ok request s) →
      p'.trace = p.trace → (worker'.answer lib request).Throughout p' Q) :
    (worker.run lib).Throughout p Q := by
  let set := worker.socket.setTimeout 10 .SO_RCVTIMEO p.world
  have hrecvs : set.2.1.recvs set.2.2 = worker.socket.recvs p.world := setTimeout_recvs ..
  unfold run setTimeout
  apply (Prog.throughout_ofFun_bind rfl Q).mpr
  -- Reading changes the world only, for however long it goes on.
  have hread : ∀ q : Process,
      (readRequest ⟨set.2.1⟩).Throughout q fun q' => q'.trace = q.trace := by
    intro q
    have hzoom : (Prog.zoom (fun p => SocketStream.ofSocket (set.2.1.recvs p.world))
        (fun s p => { p with world := set.2.1.setRecvs s.socket p.world })
        (Prog.attempt parseRequest) : ServerM _).Throughout q fun q' => q'.trace = q.trace :=
      fun _ => rfl
    refine hzoom.bind fun out q' hq' => ?_
    rw [← show q'.trace = q.trace from hzoom.of_returns hq']
    cases out with
    | error e => exact fun _ => rfl
    | ok request => exact fun _ => rfl
  refine Prog.Throughout.bind (x := readRequest ⟨set.2.1⟩)
    ((hread { p with world := set.2.2 }).mono fun q hq => hbefore q hq) fun request p' hp' => ?_
  obtain ⟨s, ⟨request', hparse, hr⟩ | ⟨e, ⟨⟩⟩⟩ := readRequest_cases hp'
  cases hr
  have hparse' : parseRequest.Returns (SocketStream.ofSocket (set.2.1.recvs set.2.2))
      (.ok request s) := hparse
  rw [hrecvs] at hparse'
  have hQ := hanswer ⟨set.2.1⟩ request s
    { p with world := set.2.1.setRecvs s.socket set.2.2 } hparse' rfl
  exact hQ.bind fun _ q hq _ => hQ.of_returns hq

end HTTPWorker

end Evaluation
