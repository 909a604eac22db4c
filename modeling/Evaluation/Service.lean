import Evaluation.Lib.Responder
import Evaluation.QueryID

namespace Evaluation

open Lib HTTPWorker

/-!
# The component as a service

What the component is for, with no sockets and no system calls: a machine whose state is the next
query id and whose inputs are the texts that the clients send, one after the other.

* `Reply`, `service` — what a client gets, and the machine;
* `answer_replied`, `run_replied` — a worker gives the reply of the machine, however it ends;
* `HTTPServer.Serves` — the server is back at `poll`, and has taken these texts in;
* `HTTPServer.serves_refines` — what it has done is a run of the machine;
* `HTTPServer.serves_same` — hence what a client is answered depends on its text and on the number
  of query ids given out before, and on nothing else;
* `HTTPServer.run_serves` — a run in which nothing is fatal answers every client that it takes in.
-/

/-! ### The machine -/

/-- What was read asks for a query id, and passes the checks. -/
def asksID (json : Nlohmann) (out : Option HTTPRequest) : Bool :=
  match checkRequest json out with
  | .error _ => false
  | .ok request => handlerMapper request.resource = .v0getQueryID

/-- The query id after a client. -/
def nextID (json : Nlohmann) (id : UInt32) (out : Option HTTPRequest) : UInt32 :=
  if asksID json out then id + 1 else id

/-- **The service.**  It fails on a text to which no reply can be built. -/
def service (json : Nlohmann) : Responder Exn UInt32 Bytes Reply where
  step id S :=
    (replyTo json id (requestOf S)).map fun reply => (reply, nextID json id (requestOf S))

/-- The event of a call. -/
def calledEvents : Option (Handler × HTTPRequest) → List Event
  | none => []
  | some (handler, request) => [.dispatched handler request]

/-- What giving a reply leaves in the trace.  The report may get lost on its way. -/
inductive Reply.Given (reply : Reply) : List Event → Prop where
  | answered : reply.Given (calledEvents reply.called ++ [.handed reply.response])
  | forwarded {report : HTTPRequest} (hreport : reply.report = some report) :
    reply.Given (calledEvents reply.called ++ [.handed reply.response, .forwarded report])

/-- A reply has been given. -/
def Gives (json : Nlohmann) (out : Option HTTPRequest) (p p' : Process) : Prop :=
  ∃ reply events, replyTo json p.queryID out = .ok reply ∧ reply.Given events ∧
    p'.trace = p.trace ++ events ∧ p'.queryID = nextID json p.queryID out

/-- The reply has been given, unless none could be built. -/
def Replied {α : Type} (json : Nlohmann) (out : Option HTTPRequest) (p : Process) :
    Outcome Halt Process α → Prop
  | .ok _ p' => Gives json out p p'
  | .error halt p' => Gives json out p p' ∨
      ∃ e events, replyTo json p.queryID out = .error e ∧ halt = .uncaught e ∧ CutShort events ∧
        p'.trace = p.trace ++ events

/-! ### A worker gives the reply of the machine -/

/-- A reply that is given is one, however the program ends. -/
theorem Replied.of_gives {α : Type} {json : Nlohmann} {out : Option HTTPRequest} {p : Process}
    {o : Outcome Halt Process α} (h : Gives json out p o.state) : Replied json out p o := by
  cases o with
  | ok a p' => exact h
  | error halt p' => exact .inl h

/-- It is a matter of the trace and of the counter. -/
theorem Replied.of_same {α : Type} {json : Nlohmann} {out : Option HTTPRequest} {p p' : Process}
    {o : Outcome Halt Process α} (htrace : p'.trace = p.trace) (hid : p'.queryID = p.queryID)
    (h : Replied json out p' o) : Replied json out p o := by
  cases o with
  | ok a q =>
    unfold Replied Gives at h ⊢
    rwa [htrace, hid] at h
  | error halt q =>
    unfold Replied Gives at h ⊢
    rwa [htrace, hid] at h

section

variable {lib : Library} {out : Option HTTPRequest} {request : HTTPRequest} {p p' : Process}

/-- A response is sent, or cannot be built. -/
theorem reply_replied (worker : HTTPWorker) (called : Option (Handler × HTTPRequest))
    (report : Option HTTPRequest) {id : UInt32} {response : Except Exn HTTPResponse}
    (hreply : replyTo lib.json p.queryID out
      = response.map fun response => ⟨called, response, report⟩)
    (hnext : nextID lib.json p.queryID out = id)
    (hcalled : Leaves p (calledEvents called) id p') :
    (worker.reply lib response).Safe p' (Replied lib.json out p) := by
  -- The response could not be made, and nothing catches the exception; or it is sent.
  cases response with
  | error e =>
    refine (reply_uncaught lib worker e p').safe.mono ?_
    rintro _ rfl
    refine .inr ⟨e, _, hreply, rfl, ?_, hcalled.trace⟩
    cases called with
    | none => exact .silent
    | some call => exact .dispatched ..
  | ok r =>
    refine (reply_leaves worker r p').safe.mono fun o ho => ?_
    have hleaves := hcalled.trans ho
    rw [hcalled.queryID, ← hnext] at hleaves
    exact .of_gives ⟨_, _, hreply, .answered, hleaves.trace, hleaves.queryID⟩

/-- The handler that reports a link, for a request that passes its checks. -/
theorem reportLink_replied {link : Bytes} (worker : HTTPWorker)
    (hcheck : checkRequest lib.json out = .ok request)
    (hhandler : handlerMapper request.resource = .v0reportSearchResults)
    (hlink : reportedLink lib.json request = .ok link)
    (hcalled : Leaves p [.dispatched .v0reportSearchResults request] p.queryID p') :
    (worker.reportLink lib link).Safe p' (Replied lib.json out p) := by
  have hreply : replyTo lib.json p.queryID out = .ok ⟨some (.v0reportSearchResults, request),
      reportedResponse, if link = [] then none else (linkRequest lib.json link).toOption⟩ := by
    simp only [replyTo, hcheck, hhandler, handlerResponse, handlerReport, hlink]
    rfl
  have hnext : nextID lib.json p.queryID out = p.queryID := by
    simp [nextID, asksID, hcheck, hhandler]
  have hid : p'.queryID = p.queryID := hcalled.queryID
  refine (reportLink_leaves worker link p').safe.mono ?_
  rintro o (ho | ⟨hne, report, hreport, ho⟩)
  · -- Nothing was forwarded: there is no link, or the exchange did not get as far as the send.
    have hanswered := hcalled.trans ho
    rw [hid, ← hnext] at hanswered
    exact .of_gives ⟨_, _, hreply, .answered, hanswered.trace, hanswered.queryID⟩
  · -- The report was handed to the socket of Link Analysis.
    have hforwarded := hcalled.trans ho
    rw [hid, ← hnext] at hforwarded
    refine .of_gives ⟨_, _, hreply, .forwarded ?_, hforwarded.trace, hforwarded.queryID⟩
    rw [if_neg hne, hreport]
    rfl

/-- One case for each handler. -/
theorem dispatch_replied (worker : HTTPWorker) (hcheck : checkRequest lib.json out = .ok request)
    (p : Process) : (worker.dispatch lib request).Safe p (Replied lib.json out p) := by
  -- A handler that sends one response, and has no part in the query ids.
  have hplain : ∀ {handler : Handler} {response : Except Exn HTTPResponse},
      handlerMapper request.resource = handler → handler ≠ .v0getQueryID →
      handlerResponse lib.json p.queryID request handler = response →
      (worker.reply lib response).Safe { p with trace := p.trace ++ [.dispatched handler request] }
        (Replied lib.json out p) := by
    rintro handler _ hhandler hother rfl
    refine reply_replied worker (some (handler, request)) (handlerReport lib.json request handler)
      ?_ ?_ ⟨rfl, rfl⟩
    · simp only [replyTo, hcheck, hhandler]
    · simp [nextID, asksID, hcheck, hhandler, hother]
  unfold dispatch
  rw [safe_record_bind]
  cases hhandler : handlerMapper request.resource with
  | v0getQueryID =>
    -- The counter moves on before the response is built.
    refine (Prog.safe_bind_of_ok ((Prog.returns_ofFun ..).mpr rfl) _).mpr ?_
    refine reply_replied worker (some (.v0getQueryID, request)) none ?_ ?_ ⟨rfl, rfl⟩
    · simp only [replyTo, hcheck, hhandler, handlerResponse, handlerReport]
      rfl
    · simp [nextID, asksID, hcheck, hhandler]
  | v0reportSearchResults =>
    show (worker.v0reportSearchResults lib request).Safe _ _
    unfold v0reportSearchResults
    cases hlink : reportedLink lib.json request with
    | error response =>
      refine hplain hhandler (by decide) ?_
      simp only [handlerResponse, hlink]
    | ok link => exact reportLink_replied worker hcheck hhandler hlink ⟨rfl, rfl⟩
  | v0getAutofill => exact hplain hhandler (by decide) rfl
  | v0submitFeedback => exact hplain hhandler (by decide) rfl
  | v0getQueryData => exact hplain hhandler (by decide) rfl
  | v0reportMetrics => exact hplain hhandler (by decide) rfl
  | notFound => exact hplain hhandler (by decide) rfl

/-- **An answer** is the reply of the machine. -/
theorem answer_replied (worker : HTTPWorker) (out : Option HTTPRequest) (p : Process) :
    (worker.answer lib out).Safe p (Replied lib.json out p) := by
  unfold answer
  cases hcheck : checkRequest lib.json out with
  | ok request => exact dispatch_replied worker hcheck p
  | error response =>
    refine reply_replied worker none none ?_ ?_ ⟨?_, rfl⟩
    · simp only [replyTo, hcheck]
    · simp [nextID, asksID, hcheck]
    · exact (List.append_nil _).symm

/-- **A worker** gives its client the reply to the text that the client has sent. -/
theorem run_replied {worker : HTTPWorker} {o : Outcome Halt Process HTTPWorker}
    (hread : Readable (delivered (worker.socket.recvs p.world)))
    (h : (worker.run lib).Returns p o) :
    Replied lib.json (requestOf (delivered (worker.socket.recvs p.world))) p o := by
  obtain ⟨s, hparse⟩ := parseRequest_reads _ hread
  -- Reading has changed the world only.
  have hsafe : ∀ (worker' : HTTPWorker) out w,
      (answer lib worker' out >>= fun _ => pure worker').Safe { p with world := w }
        (Replied lib.json out p) := by
    intro worker' out w
    refine (answer_replied worker' out { p with world := w }).bind ?_ ?_
    · exact fun _ p' hp' => (Prog.safe_pure ..).mpr hp'
    · exact fun halt p' hp' => hp'
  exact hsafe _ _ _ _ ((returns_run_iff hparse o).mp h)

end

/-! ### The server works as the machine -/

/-- The replies have been given, one after the other. -/
def AllGiven (p p' : Process) (replies : List Reply) : Prop :=
  ∃ events, List.Forall₂ Reply.Given replies events ∧ p'.trace = p.trace ++ events.flatten

/-- One reply more. -/
theorem AllGiven.concat {p p' p'' : Process} {replies : List Reply} {reply : Reply}
    {events : List Event} (h : AllGiven p p' replies) (hgiven : reply.Given events)
    (htrace : p''.trace = p'.trace ++ events) : AllGiven p p'' (replies ++ [reply]) := by
  obtain ⟨before, hbefore, hp'⟩ := h
  refine ⟨before ++ [events], List.rel_append hbefore (.cons hgiven .nil), ?_⟩
  rw [htrace, hp', List.flatten_append, List.flatten_singleton, List.append_assoc]

/-- The response that an event hands to `send`. -/
def Event.handedResponse : Event → Option HTTPResponse
  | .handed response => some response
  | _ => none

/-- The responses that have been handed to `send` since `p`. -/
def Process.responsesSince (p p' : Process) : List HTTPResponse :=
  (p'.trace.drop p.trace.length).filterMap Event.handedResponse

/-- A reply hands one response over. -/
theorem Reply.Given.responses {reply : Reply} {events : List Event} (h : reply.Given events) :
    events.filterMap Event.handedResponse = [reply.response] := by
  have hcalled : (calledEvents reply.called).filterMap Event.handedResponse = [] := by
    rcases reply.called with _ | ⟨handler, request⟩ <;> rfl
  cases h with
  | answered =>
    rw [List.filterMap_append, hcalled]
    rfl
  | forwarded hreport =>
    rw [List.filterMap_append, hcalled]
    rfl

/-- They are those of the replies. -/
theorem AllGiven.responses {p p' : Process} {replies : List Reply} (h : AllGiven p p' replies) :
    p.responsesSince p' = replies.map Reply.response := by
  obtain ⟨events, hevents, htrace⟩ := h
  unfold Process.responsesSince
  rw [htrace, List.drop_left]
  clear htrace
  induction hevents with
  | nil => rfl
  | cons hgiven _ ih =>
    rw [List.flatten_cons, List.filterMap_append, hgiven.responses, ih]
    rfl

/-- The report that an event sends on to Link Analysis. -/
def Event.forwardedReport : Event → Option HTTPRequest
  | .forwarded report => some report
  | _ => none

/-- The reports that have been sent on since `p`. -/
def Process.reportsSince (p p' : Process) : List HTTPRequest :=
  (p'.trace.drop p.trace.length).filterMap Event.forwardedReport

/-- A reply sends its report on, or nothing. -/
theorem Reply.Given.reports {reply : Reply} {events : List Event} (h : reply.Given events) :
    (events.filterMap Event.forwardedReport).Sublist reply.report.toList := by
  have hcalled : (calledEvents reply.called).filterMap Event.forwardedReport = [] := by
    rcases reply.called with _ | ⟨handler, request⟩ <;> rfl
  cases h with
  | answered =>
    rw [List.filterMap_append, hcalled]
    exact List.nil_sublist _
  | forwarded hreport =>
    rw [List.filterMap_append, hcalled, hreport]
    exact List.Sublist.refl _

/-- The reports that are sent on are reports of the replies. -/
theorem AllGiven.reports {p p' : Process} {replies : List Reply} (h : AllGiven p p' replies) :
    (p.reportsSince p').Sublist (replies.filterMap Reply.report) := by
  obtain ⟨events, hevents, htrace⟩ := h
  unfold Process.reportsSince
  rw [htrace, List.drop_left]
  clear htrace
  induction hevents with
  | nil => exact List.nil_sublist _
  | @cons reply _ _ _ hgiven _ ih =>
    rw [List.flatten_cons, List.filterMap_append, List.filterMap_cons]
    have happend := hgiven.reports.append ih
    cases hreport : reply.report with
    | none => rwa [hreport] at happend
    | some report => rwa [hreport] at happend

namespace HTTPServer

/-- What the client sends that a round takes in. -/
def clientText (server : HTTPServer) (_ : Unit) (p : Process) : Option Bytes :=
  match p.world.poll.1 with
  | some (.ready false true) =>
    (server.listenerSocket.accept (polled p).world).1.map fun sock =>
      delivered (sock.recvs (server.listenerSocket.accept (polled p).world).2)
  | _ => none

/-- A run from `p` is back at `poll`, with the process as in `q`, and has taken in clients that send
    these texts. -/
def Serves (lib : Library) (server : HTTPServer) (p : Process) (Ss : List Bytes) (q : Process) :
    Prop :=
  (server.init p.world).1 = true ∧
    Prog.Takes ((server.init p.world).2.1.pollRound lib) (server.init p.world).2.1.clientText ()
      (server.initialised p) Ss () q

section

variable {lib : Library} {server : HTTPServer} {p q : Process} {Ss : List Bytes}

/-- Every time that a run is at `poll`, it has taken in some clients. -/
theorem ReachesPoll.serves (h : ReachesPoll lib server p q) : ∃ Ss, Serves lib server p Ss q := by
  obtain ⟨Ss, htakes⟩ := h.2.takes (server.init p.world).2.1.clientText
  exact ⟨Ss, h.1, htakes⟩

/-- Behind the worker the sockets are destroyed, which leaves no event. -/
theorem serveClient_replied {sock : TCPSocket} (p : Process)
    (hread : Readable (delivered (sock.recvs p.world))) :
    (serveClient lib sock).Safe p
      (Replied lib.json (requestOf (delivered (sock.recvs p.world))) p) := by
  unfold serveClient
  refine Prog.Safe.bind (fun o ho => run_replied hread ho) ?_ ?_
  · intro worker p' hp'
    exact (Prog.safe_ofFun ..).mpr hp'
  · exact fun halt p' hp' => hp'

/-- What a round does about its client, if it has one. -/
def RoundReplied {α : Type} (json : Nlohmann) (text : Option Bytes) (p : Process)
    (o : Outcome Halt Process α) : Prop :=
  match text with
  | none => o.state.trace = p.trace ∧ o.state.queryID = p.queryID
  | some S => Readable S → Replied json (requestOf S) p o

/-- **A round** gives the reply to its client. -/
theorem pollRound_replied (server : HTTPServer) (p : Process) :
    (server.pollRound lib ()).Safe p
      (RoundReplied lib.json (server.clientText () p) p) := by
  -- With no client the round is over when `poll` has returned.
  have hquiet : ∀ {o : Outcome Halt Process (Unit ⊕ Bool)},
      p.world.poll.1 ≠ some (.ready false true) → o.state = polled p →
      RoundReplied lib.json (server.clientText () p) p o := by
    intro o hpoll ho
    have hnone : server.clientText () p = none := by
      unfold clientText
      split
      · exact absurd ‹_› hpoll
      · rfl
    rw [hnone]
    show o.state.trace = p.trace ∧ o.state.queryID = p.queryID
    rw [ho]
    exact ⟨rfl, rfl⟩
  apply safe_pollRound
  · exact fun hpoll => hquiet (by rw [hpoll]; nofun) rfl
  · exact fun hpoll => hquiet (by rw [hpoll]; nofun) rfl
  · exact fun listener hpoll => hquiet (by rw [hpoll]; nofun) rfl
  · rintro (hpoll | hpoll)
    · exact hquiet (by rw [hpoll]; nofun) rfl
    · exact hquiet (by rw [hpoll]; nofun) rfl
  · intro hpoll
    have htext : server.clientText () p
        = (server.listenerSocket.accept (polled p).world).1.map fun sock =>
          delivered (sock.recvs (server.listenerSocket.accept (polled p).world).2) := by
      unfold clientText
      rw [hpoll]
    rw [htext]
    have hserved : (server.acceptClient lib).Safe (polled p) (RoundReplied lib.json
        ((server.listenerSocket.accept (polled p).world).1.map fun sock =>
          delivered (sock.recvs (server.listenerSocket.accept (polled p).world).2)) p) := by
      unfold acceptClient
      rw [safe_onWorld_bind]
      cases (server.listenerSocket.accept (polled p).world).1 with
      | none => exact (Prog.safe_pure ..).mpr ⟨rfl, rfl⟩
      | some sock =>
        intro o ho hread
        exact (serveClient_replied _ hread o ho).of_same rfl rfl
    refine hserved.bind ?_ ?_
    · intro _ p' hp'
      exact (Prog.safe_pure ..).mpr hp'
    · exact fun halt p' hp' => hp'

/-- A run that is back at `poll` is one of the machine. -/
theorem Serves.refines (h : Serves lib server p Ss q) (hread : ∀ S ∈ Ss, Readable S) :
    ∃ replies, (service lib.json).run p.queryID Ss = .ok (replies, q.queryID) ∧
      AllGiven p q replies := by
  refine h.2.refines Process.queryID (fun replies p' => AllGiven p p' replies) ?_ ?_ hread
    ⟨[], .nil, ?_⟩
  · -- A round without a client leaves no trace.
    intro _ t _ u replies hround hnone hgiven
    have hreplied := pollRound_replied _ t _ hround
    rw [hnone] at hreplied
    obtain ⟨htrace, hid⟩ := hreplied
    refine ⟨hid, ?_⟩
    obtain ⟨events, hevents, ht⟩ := hgiven
    exact ⟨events, hevents, htrace.trans ht⟩
  · -- A round with a client gives the reply that the service gives to its text.
    intro _ t _ u replies S hround htext hS hgiven
    have hreplied := pollRound_replied _ t _ hround
    rw [htext] at hreplied
    obtain ⟨reply, events, hreply, hevents, htrace, hid⟩ := hreplied hS
    refine ⟨reply, ?_, hgiven.concat hevents htrace⟩
    show (replyTo lib.json t.queryID (requestOf S)).map _ = _
    rw [hreply, hid]
    rfl
  · exact (List.append_nil _).symm

/-- **Refinement.**  Every time that a run is back at `poll`, its counter is the state of the
    machine behind the texts of its clients; what it has done since the start are the replies of
    the machine, one after the other; so the responses are those of the replies, and of the reports
    some may be missing. -/
theorem serves_refines (h : Serves lib server p Ss q) (hread : ∀ S ∈ Ss, Readable S) :
    ∃ replies, (service lib.json).run p.queryID Ss = .ok (replies, q.queryID) ∧
      AllGiven p q replies ∧ p.responsesSince q = replies.map Reply.response ∧
        (p.reportsSince q).Sublist (replies.filterMap Reply.report) := by
  obtain ⟨replies, hrun, hgiven⟩ := h.refines hread
  exact ⟨replies, hrun, hgiven, hgiven.responses, hgiven.reports⟩

/-- The server for port 8080 serves its one client if the worker for it returns. -/
theorem serves_of_returns {client : Peer} {worker : HTTPWorker} {p' : Process}
    (hreturns : (HTTPWorker.run Library.plain ⟨.ofFd 4⟩).Returns (acceptedFrom client)
      (.ok worker p')) :
    ∃ q, Serves Library.plain server8080 (visitedBy client) [delivered client.recvs] q := by
  have hserve : (serveClient Library.plain (.ofFd 4)).Returns (acceptedFrom client) (.ok () _) :=
    (Prog.returns_bind_of_ok hreturns _).mpr ((Prog.returns_ofFun ..).mpr rfl)
  have haccept := (acceptClient_visitedBy Library.plain client _).mpr hserve
  have hround := (pollRound_client rfl _).mpr
    ((Prog.returns_bind_of_ok haccept _).mpr ((Prog.returns_pure ..).mpr rfl))
  exact ⟨_, rfl, .next .refl hround⟩

/-- A harmless client that visits is served. -/
theorem serves_visitedBy {client : Peer}
    (hharmless : Harmless Library.plain (delivered client.recvs))
    (hcalm : (visitedBy client).world.Calm) :
    ∃ q, Serves Library.plain server8080 (visitedBy client) [delivered client.recvs] q := by
  obtain ⟨worker, p', hreturns, -⟩ := run_acceptedFrom hharmless hcalm
  exact serves_of_returns hreturns

/-- It gives out a query id. -/
theorem serves_refines_id : ∃ q replies,
    Serves Library.plain server8080 (visitedBy idClient) [delivered idClient.recvs] q ∧
      (service Nlohmann.plain).run 0 [delivered idClient.recvs] = .ok (replies, q.queryID) ∧
        (visitedBy idClient).responsesSince q = replies.map Reply.response := by
  obtain ⟨q, hserves⟩ := @serves_visitedBy idClient harmless_idClient
    (visitedBy_calm fun _ => ⟨nofun, nofun⟩)
  obtain ⟨replies, hrun, -, hresponses, -⟩ := serves_refines hserves (by
    intro S hS
    rw [List.mem_singleton.mp hS]
    exact harmless_idClient.readable)
  exact ⟨q, replies, hserves, hrun, hresponses⟩

/-! ### What an answer depends on -/

/-- The number of the texts that ask for a query id. -/
def idsAsked (json : Nlohmann) (Ss : List Bytes) : ℕ :=
  Ss.countP fun S => asksID json (requestOf S)

/-- The counter goes up by the number of ids asked for. -/
theorem foldl_nextID (json : Nlohmann) (id : UInt32) (Ss : List Bytes) :
    Ss.foldl (fun id S => nextID json id (requestOf S)) id
      = id + UInt32.ofNat (idsAsked json Ss) := by
  induction Ss generalizing id with
  | nil => simp [idsAsked]
  | cons S Ss ih =>
    rw [List.foldl_cons, ih]
    unfold nextID idsAsked
    rw [List.countP_cons]
    split
    · rw [UInt32.add_assoc, ← UInt32.ofNat_one, ← UInt32.ofNat_add, Nat.add_comm]
    · simp

/-- The counter of the machine counts the texts that have asked for a query id. -/
theorem service_state {json : Nlohmann} {id id' : UInt32} {Ss : List Bytes}
    {replies : List Reply} (h : (service json).run id Ss = .ok (replies, id')) :
    id' = id + UInt32.ofNat (idsAsked json Ss) := by
  rw [← foldl_nextID]
  refine Responder.run_state (fun id S reply t hstep => ?_) h
  unfold service at hstep
  dsimp only at hstep
  cases hreply : replyTo json id (requestOf S) with
  | error e =>
    rw [hreply] at hstep
    cases hstep
  | ok reply' =>
    rw [hreply] at hstep
    cases hstep
    rfl

/-- **The answer to a client.** -/
theorem serves_response (h : Serves lib server p Ss q) (hread : ∀ S ∈ Ss, Readable S) {i : ℕ}
    {S : Bytes} (hi : Ss[i]? = some S) :
    ∃ reply, replyTo lib.json (p.queryID + UInt32.ofNat (idsAsked lib.json (Ss.take i)))
      (requestOf S) = .ok reply ∧ (p.responsesSince q)[i]? = some reply.response := by
  obtain ⟨replies, hrun, hgiven⟩ := h.refines hread
  obtain ⟨id, reply, id', hbefore, hstep, hreply⟩ := Responder.run_getElem hrun hi
  rw [service_state hbefore] at hstep
  -- The reply comes from the step of the service; the trace of the run holds it at the same place.
  refine ⟨reply, ?_, ?_⟩
  · unfold service at hstep
    dsimp only at hstep
    cases hto : replyTo lib.json _ (requestOf S) with
    | error e =>
      rw [hto] at hstep
      cases hstep
    | ok reply' =>
      rw [hto] at hstep
      cases hstep
      rfl
  · rw [hgiven.responses, List.getElem?_map, hreply]
    rfl

/-- **Clients do not disturb each other.**  In two runs, of any two servers in any two worlds, a
    client that sends the same text gets the same response if as many query ids, modulo 2³², have
    been given out before: how the text is cut, what the other clients send and take, and what
    becomes of the reports to Link Analysis does not matter. -/
theorem serves_same {lib' : Library} {server' : HTTPServer} {p' q' : Process} {Ss' : List Bytes}
    (hjson : lib'.json = lib.json) (h : Serves lib server p Ss q)
    (h' : Serves lib' server' p' Ss' q') (hread : ∀ S ∈ Ss, Readable S)
    (hread' : ∀ S ∈ Ss', Readable S) {i j : ℕ} {S : Bytes} (hi : Ss[i]? = some S)
    (hj : Ss'[j]? = some S)
    (hids : p.queryID + UInt32.ofNat (idsAsked lib.json (Ss.take i))
      = p'.queryID + UInt32.ofNat (idsAsked lib.json (Ss'.take j))) :
    ∃ response, (p.responsesSince q)[i]? = some response ∧
      (p'.responsesSince q')[j]? = some response := by
  obtain ⟨reply, hreply, hresponse⟩ := serves_response h hread hi
  obtain ⟨reply', hreply', hresponse'⟩ := serves_response h' hread' hj
  rw [hjson, ← hids, hreply] at hreply'
  cases hreply'
  exact ⟨reply.response, hresponse, hresponse'⟩

/-- The same client, whose text comes in two chunks and who takes nothing of the answer. -/
def splitIdClient : Peer :=
  ⟨[some (bytes "GET /v0/Get"), some (bytes "QueryID HTTP/1.1\r\n\r\n"), none],
    .const .failed⟩

/-- It gets the same response. -/
theorem serves_same_split : ∃ q q' response,
    Serves Library.plain server8080 (visitedBy idClient) [delivered idClient.recvs] q ∧
      Serves Library.plain server8080 (visitedBy splitIdClient) [delivered splitIdClient.recvs] q' ∧
        ((visitedBy idClient).responsesSince q)[0]? = some response ∧
          ((visitedBy splitIdClient).responsesSince q')[0]? = some response := by
  have hsplit : delivered splitIdClient.recvs = delivered idClient.recvs := by decide +kernel
  have hharmless : Harmless Library.plain (delivered splitIdClient.recvs) := by
    rw [hsplit]
    exact harmless_idClient
  obtain ⟨q, hserves⟩ := @serves_visitedBy idClient harmless_idClient
    (visitedBy_calm fun _ => ⟨nofun, nofun⟩)
  obtain ⟨q', hserves'⟩ := @serves_visitedBy splitIdClient hharmless
    (visitedBy_calm fun _ => ⟨nofun, nofun⟩)
  have hread : ∀ S ∈ [delivered idClient.recvs], Readable S := by
    intro S hS
    rw [List.mem_singleton.mp hS]
    exact harmless_idClient.readable
  have hread' : ∀ S ∈ [delivered splitIdClient.recvs], Readable S := by
    rw [hsplit]
    exact hread
  obtain ⟨response, hresponse, hresponse'⟩ := @serves_same Library.plain server8080
    (visitedBy idClient) q [delivered idClient.recvs] Library.plain server8080
    (visitedBy splitIdClient) q' [delivered splitIdClient.recvs] rfl hserves hserves' hread
    hread' 0 0 (delivered idClient.recvs) rfl (by rw [hsplit]; rfl) rfl
  exact ⟨q, q', response, hserves, hserves', hresponse, hresponse'⟩

/-! ### How a run ends -/

/-- A round in which nothing is fatal: only `poll` ends the run. -/
theorem pollRound_calm (hdoc : lib.json.Documented) (server : HTTPServer)
    (hharmless : p.world.ClientsHarmless lib) (hcalm : p.world.Calm) :
    (server.pollRound lib ()).Safe p fun o => p.world.Later o.state.world ∧
      ((∀ p', o ≠ .ok (.inl ()) p') → o.state = polled p) := by
  have hpolled : p.world.Later (polled p).world := p.world.later_poll
  apply safe_pollRound
  · exact fun _ => ⟨hpolled, fun _ => rfl⟩
  · exact fun _ => ⟨hpolled, fun _ => rfl⟩
  · exact fun _ _ => ⟨hpolled, fun _ => rfl⟩
  · exact fun _ => ⟨hpolled, fun _ => rfl⟩
  · -- A client is served, and the loop goes on.
    intro _
    have hserved := acceptClient_comesBack hdoc server (hharmless.later hpolled)
    refine hserved.safe.bind ?_ ?_
    · intro _ p' hlater
      exact (Prog.safe_pure ..).mpr ⟨hpolled.trans hlater, fun hne => absurd rfl (hne p')⟩
    · rintro halt p' ⟨-, hfatal⟩
      exact absurd hfatal ((hcalm.later hpolled).not_fatal halt)

/-- In a round of a run in which nothing is fatal nothing has become so. -/
theorem pollRound_keeps (hdoc : lib.json.Documented) (server : HTTPServer) {a b : Unit}
    (h : p.world.ClientsHarmless lib ∧ p.world.Calm)
    (hround : (server.pollRound lib a).Returns p (.ok (.inl b) q)) :
    q.world.ClientsHarmless lib ∧ q.world.Calm := by
  have hlater := (pollRound_calm hdoc server h.1 h.2 _ hround).1
  exact ⟨h.1.later hlater, h.2.later hlater⟩

/-- What a client sends that a round takes in was an answer to `accept`. -/
theorem readable_clientText {S : Bytes} (hharmless : p.world.ClientsHarmless lib)
    (h : server.clientText () p = some S) : Readable S := by
  unfold clientText at h
  split at h
  · obtain ⟨sock, hsock, rfl⟩ := Option.map_eq_some_iff.mp h
    obtain ⟨fd, peer, hmem, hrecvs⟩ := accept_recvs hsock
    rw [hrecvs]
    exact (hharmless.later p.world.later_poll fd peer hmem).readable
  · cases h

/-- Every time that such a run is at `poll`, it has answered what it has taken in. -/
theorem ReachesPoll.replied (hdoc : lib.json.Documented) (h : ReachesPoll lib server p q)
    (hharmless : p.world.ClientsHarmless lib) (hcalm : p.world.Calm) :
    ∃ Ss replies, Serves lib server p Ss q ∧
      (service lib.json).run p.queryID Ss = .ok (replies, q.queryID) ∧ AllGiven p q replies := by
  obtain ⟨Ss, hserves⟩ := h.serves
  have hlater := later_init server p.world
  have hread : ∀ S ∈ Ss, Readable S := by
    refine hserves.2.inputs (I := fun _ p' => p'.world.ClientsHarmless lib ∧ p'.world.Calm) ?_ ?_
      ⟨hharmless.later hlater, hcalm.later hlater⟩
    · exact fun _ _ _ _ ht hround => pollRound_keeps hdoc _ ht hround
    · exact fun _ _ _ ht htext => readable_clientText ht.1 htext
  obtain ⟨replies, hrun, hgiven⟩ := hserves.refines hread
  exact ⟨Ss, replies, hserves, hrun, hgiven⟩

/-- **The loop** comes to a last round, in which `poll` ends it. -/
theorem loop_lastRound (hdoc : lib.json.Documented) (server : HTTPServer)
    (hharmless : p.world.ClientsHarmless lib) (hcalm : p.world.Calm) :
    (Prog.loop (server.pollRound lib) ()).Ends p fun o => AtPoll o ∧
      ∃ q, Prog.Passes (server.pollRound lib) () p () q ∧ o.state = polled q := by
  obtain ⟨o, ho, hend⟩ := loop_survives hdoc server hharmless
  -- The loop ends at the poll: nothing else in a calm world ends it.
  have hatPoll : AtPoll o := by
    refine hend.resolve_right fun hfatal => ?_
    cases o with
    | ok result p' => exact hfatal
    | error halt p' => exact hcalm.not_fatal halt hfatal
  obtain ⟨⟨⟩, q, hpasses, hlast⟩ := ho.at_last
  have hq : q.world.ClientsHarmless lib ∧ q.world.Calm :=
    hpasses.invariant (I := fun _ p' => p'.world.ClientsHarmless lib ∧ p'.world.Calm)
      (fun _ _ _ _ ht hround => pollRound_keeps hdoc server ht hround) ⟨hharmless, hcalm⟩
  -- The round that ends the loop has served no one, so it changes no more than the poll does.
  have hround : (server.pollRound lib ()).Safe q _ := pollRound_calm hdoc server hq.1 hq.2
  refine ⟨o, ho, hatPoll, q, hpasses, ?_⟩
  obtain ⟨result, p', hreturns, rfl⟩ | ⟨halt, p', hreturns, rfl⟩ := hlast
  · exact (hround _ hreturns).2 (by rintro _ ⟨⟩)
  · exact (hround _ hreturns).2 (by rintro _ ⟨⟩)

/-- **Every client is answered.**  Where every `::send` goes through and the clients send what is
    harmless, a run of a server that has started ends at `poll`, and has given the reply of the
    machine to every client that it has taken in. -/
theorem run_serves (hdoc : lib.json.Documented) (hinit : (server.init p.world).1 = true)
    (hharmless : p.world.ClientsHarmless lib) (hcalm : p.world.Calm) :
    (server.run lib).Ends p fun o => AtPoll o ∧ ∃ Ss replies q, Serves lib server p Ss q ∧
      o.state = polled q ∧ (service lib.json).run p.queryID Ss = .ok (replies, o.state.queryID) ∧
        AllGiven p o.state replies := by
  have hlater := later_init server p.world
  unfold run
  rw [ends_onWorld_bind, hinit]
  -- The loop returns, or waits for ever; both times it is at the poll.
  refine Prog.Ends.bind (loop_lastRound hdoc (server.init p.world).2.1 (hharmless.later hlater)
    (hcalm.later hlater)) ?_ ?_
  · rintro result p' ⟨hatPoll, q, hpasses, rfl⟩
    obtain ⟨Ss, replies, hserves, hrun, hgiven⟩ :=
      ReachesPoll.replied hdoc ⟨hinit, hpasses⟩ hharmless hcalm
    exact (Prog.ends_pure ..).mpr ⟨trivial, Ss, replies, q, hserves, rfl, hrun, hgiven⟩
  · rintro halt p' ⟨hatPoll, q, hpasses, rfl⟩
    obtain ⟨Ss, replies, hserves, hrun, hgiven⟩ :=
      ReachesPoll.replied hdoc ⟨hinit, hpasses⟩ hharmless hcalm
    exact ⟨hatPoll, Ss, replies, q, hserves, rfl, hrun, hgiven⟩

/-- A server for one client that asks for a query id. -/
theorem run_serves_id : (server8080.run Library.plain).Ends (visitedBy idClient) fun o =>
    AtPoll o ∧ ∃ Ss replies q, Serves Library.plain server8080 (visitedBy idClient) Ss q ∧
      o.state = polled q ∧ (service Nlohmann.plain).run 0 Ss = .ok (replies, o.state.queryID) ∧
        AllGiven (visitedBy idClient) o.state replies := by
  refine run_serves Nlohmann.plain_documented rfl ?_ (visitedBy_calm fun _ => ⟨nofun, nofun⟩)
  intro fd client hmem
  cases List.mem_singleton.mp hmem
  exact harmless_idClient

end

end HTTPServer

end Evaluation
