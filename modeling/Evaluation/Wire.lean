import Evaluation.Descriptors
import Evaluation.RoundTrip
import Evaluation.Sending
import Evaluation.Service

namespace Evaluation

open Lib HTTPWorker

/-!
# What a client sees on the wire

A worker that returns has sent its client the reply of the service, or a beginning of it, and has
left every other connection alone; a client that takes everything reads the reply.

* `World.Confined` — what the methods of a socket change, but for `create` and `accept`: its own
  descriptor;
* `forward_stays` — the exchange with Link Analysis changes nothing that was open;
* `SendCalls.taken` — a client that goes on reading takes all of a message;
* `run_wire` — the bytes that a client gets;
* `run_readBack` — what it reads in them.
-/

/-! ### What a socket changes -/

/-- Nothing has changed but the descriptor of this socket. -/
def World.Confined (sock : TCPSocket) (w w' : World) : Prop :=
  ∀ fd, sock.fd ≠ some fd → w'.descriptors fd = w.descriptors fd

/-- What was open is as it was. -/
def World.Stays (w w' : World) : Prop :=
  ∀ fd d, w.descriptors fd = some d → w'.descriptors fd = some d

namespace World

theorem Confined.refl (sock : TCPSocket) (w : World) : Confined sock w w := fun _ _ => rfl

theorem Confined.trans {sock : TCPSocket} {w w' w'' : World} (h : Confined sock w w')
    (h' : Confined sock w' w'') : Confined sock w w'' :=
  fun fd hfd => (h' fd hfd).trans (h fd hfd)

theorem confined_of_descriptors (sock : TCPSocket) {w w' : World}
    (h : w'.descriptors = w.descriptors) : Confined sock w w' := fun fd _ => by rw [h]

theorem confined_of_update {sock : TCPSocket} {fd : Fd} (hfd : sock.fd = some fd) {w w' : World}
    {d : Option Descriptor} (h : w'.descriptors = Function.update w.descriptors fd d) :
    Confined sock w w' := by
  intro fd' hne
  rw [h]
  refine Function.update_of_ne ?_ ..
  rintro rfl
  exact hne hfd

theorem confined_of_sent {sock : TCPSocket} {fd : Fd} (hfd : sock.fd = some fd) {w w' : World}
    (h : Sent fd w w') : Confined sock w w' := by
  intro fd' hne
  apply h.other
  rintro rfl
  exact hne hfd

end World

namespace TCPSocket

open World

/-- `connect` is confined to its socket. -/
theorem confined_connect (sock : TCPSocket) (ip : Bytes) (port : UInt16) (w : World) :
    Confined sock w (sock.connect ip port w).2 := by
  unfold connect
  cases hfd : sock.fd with
  | none => exact .refl sock w
  | some fd =>
    dsimp only
    split
    · obtain ⟨-, hsame | ⟨d, port', peer, -, -, -, hupdate⟩⟩ := w.connect_spec fd (cString ip) port
      · exact confined_of_descriptors sock hsame
      · exact confined_of_update hfd hupdate
    · exact .refl sock w

/-- The destructor is confined to its socket. -/
theorem confined_destroy (sock : TCPSocket) (w : World) : Confined sock w (sock.destroy w) := by
  cases hfd : sock.fd with
  | none =>
    rw [destroy_none hfd]
    exact .refl sock w
  | some fd =>
    unfold destroy
    rw [hfd, Option.isSome_some, if_pos rfl, close_world hfd]
    -- The port is looked up and forgotten first.
    have hforget : Confined sock w (forgetPort fd w) := by
      obtain ⟨portsInUse, hforget⟩ := forgetPort_world fd w
      rw [hforget]
      exact confined_of_descriptors sock (w.getsockname_spec fd).2.1
    obtain ⟨-, ⟨-, hsame⟩ | ⟨-, -, hupdate⟩⟩ := (forgetPort fd w).close_spec fd
    · exact hforget.trans (confined_of_descriptors sock hsame)
    · exact hforget.trans (confined_of_update hfd hupdate)

/-- A new socket changes nothing that was open. -/
theorem confined_create (sock : TCPSocket) (w : World) :
    Confined (sock.create w).2.1 w (sock.create w).2.2 ∧
      ∀ fd, (sock.create w).2.1.fd = some fd → w.descriptors fd = none := by
  have hsocket := w.socket_spec.2
  unfold create
  rcases hcall : w.socket with ⟨_ | fd, w'⟩
  · rw [hcall] at hsocket
    obtain ⟨-, hsame⟩ | ⟨fd, ⟨⟩, -⟩ := hsocket
    exact ⟨confined_of_descriptors _ hsame, by rintro fd ⟨⟩⟩
  · rw [hcall] at hsocket
    obtain ⟨⟨⟩, -⟩ | ⟨_, hfd, hclosed, hupdate⟩ := hsocket
    cases hfd
    refine ⟨confined_of_update rfl hupdate, ?_⟩
    rintro _ ⟨⟩
    exact hclosed

end TCPSocket

/-- What was open in `w` is as it was, and does not belong to this socket. -/
def World.Beside (sock : TCPSocket) (w w' : World) : Prop :=
  ∀ fd d, w.descriptors fd = some d → sock.fd ≠ some fd ∧ w'.descriptors fd = some d

namespace World

/-- Work on a new descriptor leaves the others as they are. -/
theorem Beside.stays {sock : TCPSocket} {w w' : World} (h : Beside sock w w') : w.Stays w' :=
  fun fd d hd => (h fd d hd).2

/-- More of it, on the same socket. -/
theorem Beside.confined {sock : TCPSocket} {w w' w'' : World} (h : Beside sock w w')
    (h' : Confined sock w' w'') : Beside sock w w'' := by
  intro fd d hd
  obtain ⟨hfd, hsame⟩ := h fd d hd
  exact ⟨hfd, (h' fd hfd).trans hsame⟩

/-- A socket that `create` has made is one beside the others. -/
theorem beside_create {w w' : World} (h : w.Stays w') :
    Beside (({} : TCPSocket).create w').2.1 w (({} : TCPSocket).create w').2.2 := by
  obtain ⟨hconfined, hclosed⟩ := ({} : TCPSocket).confined_create w'
  intro fd d hd
  have hfd : (({} : TCPSocket).create w').2.1.fd ≠ some fd := by
    intro hfd
    have hnone := hclosed fd hfd
    rw [h fd d hd] at hnone
    cases hnone
  exact ⟨hfd, (hconfined fd hfd).trans (h fd d hd)⟩

end World

/-! ### The exchange with Link Analysis -/

section

variable {lib : Library}

/-- Sending on it stays beside them. -/
theorem beside_socketSend (sock : TCPSocket) (val : Bytes) (fullMsg : Bool) (w₀ : World) :
    Leads (World.Beside sock w₀) (inWorld (sock.send val fullMsg))
      fun _ => World.Beside sock w₀ := by
  intro p hp
  refine (Prog.safe_zoom ..).mpr ?_
  cases hfd : sock.fd with
  | none =>
    unfold TCPSocket.send
    rw [hfd]
    exact (Prog.safe_pure ..).mpr hp
  | some fd =>
    refine (TCPSocket.send_safe hfd val fullMsg p.world).mono ?_
    rintro (⟨sent, w'⟩ | ⟨halt, w'⟩) ho
    · exact hp.confined (World.confined_of_sent hfd ho)
    · rintro rfl
      obtain ⟨-, ⟨⟨⟩, -⟩ | ⟨⟨⟩, -⟩⟩ := ho

/-- **The exchange with Link Analysis** changes nothing that was open: it works on a socket of its
    own. -/
theorem forward_stays (w₀ : World) (link : Bytes) :
    Leads w₀.Stays (forward lib link) fun _ => w₀.Stays := by
  refine (leads_onWorld_same fun w hw fd d hd => ?_).bind fun ip => ?_
  · rw [TCPSocket.getIP_world]
    exact hw fd d hd
  -- What happens from here on is on the new socket, beside the descriptors that were open before.
  refine Leads.bind (J := fun created => World.Beside created.2 w₀) ?_ fun created => ?_
  · exact leads_onWorld fun w hw => World.beside_create hw
  · refine Leads.bind (J := fun _ => World.Beside created.2 w₀) ?_ fun _ => ?_
    · unfold exchangeLink
      split
      · refine (leads_onWorld_same fun w hw =>
          hw.confined (created.2.confined_connect _ _ w)).bind fun connected => ?_
        split
        · exact (leads_orUncaught _).bind fun _ =>
            (leads_record _).bind fun _ => beside_socketSend _ _ _ _
        · exact leads_pure false
      · exact leads_pure false
    · exact leads_onWorld fun w hw => (hw.confined (created.2.confined_destroy w)).stays

/-! ### A client that takes everything -/

/-- The other end takes some of every `::send`, for as many calls as there are bytes. -/
def Descriptor.TakesAll (d : Descriptor) (n : ℕ) : Prop :=
  ∀ i < n, ∃ m, d.peer.sends.get i = .sent m

/-- **No call fails** before all has been taken. -/
theorem SendCalls.taken {fd : Fd} {val : Bytes} {w w' : World} {d : Descriptor}
    {results : List SendResult} {k : ℕ} (h : SendCalls fd val w results k w')
    (hd : w.descriptors fd = some d) (hall : d.TakesAll val.length) (hk : k < val.length) :
    .failed ∉ results ∧ results.length ≤ k := by
  -- Induction on the calls: up to here each of them has taken a byte at least, so that the next
  -- result is one of those that take something.
  induction h with
  | start => exact ⟨nofun, Nat.le_refl 0⟩
  | @sent results k n w' w'' hcalls hsend ih =>
    obtain ⟨hfailed, hcount⟩ := ih (by omega)
    obtain ⟨-, d', hd', -⟩ := hcalls.accepted hd
    obtain ⟨-, hone, -⟩ := send_sent hd' hsend
    have hn : 1 ≤ n := hone (by rw [ne_eq, List.drop_eq_nil_iff, not_le]; omega)
    refine ⟨by simp [hfailed], ?_⟩
    rw [List.length_append, List.length_singleton]
    omega
  | @failed results k w' w'' hcalls hsend ih =>
    obtain ⟨-, hcount⟩ := ih hk
    obtain ⟨-, d', hd', -, hleft⟩ := hcalls.accepted hd
    obtain ⟨hhead, -⟩ := send_failed hd' hsend
    obtain ⟨m, hm⟩ := hall results.length (by omega)
    rw [hleft, Stream'.head_drop] at hhead
    cases hhead.symm.trans hm

/-! ### A worker on the wire -/

/-- What sending a text on a descriptor leaves: the kernel has taken a beginning of the text, all of
    it if the other end takes everything, and what else was open is as it was. -/
structure Took (fd : Fd) (text : Bytes) (w w' : World) : Prop where
  own : ∀ d, w.descriptors fd = some d → text.length < 2 ^ 32 →
    ∃ d' k, w'.descriptors fd = some d' ∧ d'.accepted = d.accepted ++ text.take k ∧
      (d.TakesAll text.length → text.take k = text)
  others : ∀ fd' d, fd' ≠ fd → w.descriptors fd' = some d → w'.descriptors fd' = some d

/-- What a descriptor has taken does not change while others are worked on. -/
theorem Took.stays {fd : Fd} {text : Bytes} {w w' w'' : World} (h : Took fd text w w')
    (h' : w'.Stays w'') : Took fd text w w'' where
  own d hd hlen := by
    obtain ⟨d', k, hd', htaken⟩ := h.own d hd hlen
    exact ⟨d', k, h' fd d' hd', htaken⟩
  others fd' d hne hd := h' fd' d (h.others fd' d hne hd)

/-- `TCPSocket::send` gives its descriptor a beginning of the text. -/
theorem socketSend_took {sock : TCPSocket} {fd : Fd} (hfd : sock.fd = some fd) {val : Bytes}
    {w w' : World} {sent : Bool} (h : (sock.send val true).Returns w (.ok sent w')) :
    Took fd val w w' := by
  have hothers : World.Sent fd w w' := TCPSocket.send_safe hfd val true w _ h
  refine ⟨fun d hd hlen => ?_, fun fd' d hne hd => by rw [hothers.other fd' hne, hd]⟩
  unfold TCPSocket.send at h
  rw [hfd] at h
  obtain ⟨count, w'', hloop, hpure⟩ | ⟨_, _, -, ⟨⟩⟩ := (Prog.returns_bind ..).mp h
  cases (Prog.returns_pure ..).mp hpure
  obtain ⟨results, hcalls, -, hlast, -⟩ := (sendLoop_exact hd true hlen).of_returns hloop
  obtain ⟨hk, d', hd', haccepted, -⟩ := hcalls.accepted hd
  refine ⟨d', count.toNat, hd', haccepted, fun hall => ?_⟩
  rw [List.take_eq_self_iff]
  by_contra hless
  -- Something is missing, so the last call has failed.
  obtain ⟨hfailed, -⟩ := hcalls.taken hd hall (by omega)
  exact hfailed (List.mem_of_getLast? (hlast rfl (by omega)))

/-- A program that returns has handed a response to `send`, and that is what was sent. -/
def Wires {α : Type} (lib : Library) (fd : Fd) (p : Process) : Outcome Halt Process α → Prop
  | .ok _ p' => ∃ response events, p'.trace = p.trace ++ events ∧ .handed response ∈ events ∧
      Took fd (responseText lib response) p.world p'.world
  | .error _ _ => True

variable {worker : HTTPWorker} {fd : Fd}

/-- A response that is sent is wired. -/
theorem send_wires (hfd : worker.socket.fd = some fd) (response : Except Exn HTTPResponse)
    (p : Process) : (worker.send lib response).Safe p (Wires lib fd p) := by
  unfold send
  cases response with
  | error e =>
    intro o ho
    rw [(Prog.returns_throw_bind ..).mp ho]
    trivial
  | ok response =>
    rw [safe_orUncaught_ok_bind, safe_record_bind]
    refine (Prog.safe_zoom ..).mpr ?_
    rintro (⟨sent, w'⟩ | ⟨halt, w'⟩) hsent
    · exact ⟨response, [.handed response], rfl, List.mem_singleton.mpr rfl,
        socketSend_took hfd hsent⟩
    · trivial

theorem reply_wires (hfd : worker.socket.fd = some fd) (response : Except Exn HTTPResponse)
    (p : Process) : (worker.reply lib response).Safe p (Wires lib fd p) := by
  refine (send_wires hfd response p).bind ?_ fun _ _ _ => trivial
  exact fun sent p' hp' => (Prog.safe_pure ..).mpr hp'

/-- What comes behind the response changes nothing that was open. -/
theorem reportLink_wires (hfd : worker.socket.fd = some fd) (link : Bytes) (p : Process) :
    (worker.reportLink lib link).Safe p (Wires lib fd p) := by
  unfold reportLink
  refine (send_wires hfd _ p).bind ?_ fun _ _ _ => trivial
  rintro sent p' ⟨response, events, htrace, hmem, htook⟩
  split
  · exact (Prog.safe_pure ..).mpr ⟨response, events, htrace, hmem, htook⟩
  · intro o ho
    cases o with
    | error halt p'' => trivial
    | ok u p'' =>
      have hstays := (forward_stays p'.world link).ok (fun fd d hd => hd) ho
      obtain ⟨more, hmore⟩ : p'.trace <+: p''.trace := (grows_forward lib link p').of_returns ho
      refine ⟨response, events ++ more, ?_, List.mem_append_left _ hmem, htook.stays hstays⟩
      rw [← List.append_assoc, ← htrace]
      exact hmore.symm

/-- What a handler does before it answers does not matter. -/
theorem Wires.earlier {α : Type} {p p' : Process} {before : List Event}
    {o : Outcome Halt Process α} (htrace : p'.trace = p.trace ++ before)
    (hworld : p'.world = p.world) (h : Wires lib fd p' o) : Wires lib fd p o := by
  cases o with
  | error halt q => trivial
  | ok a q =>
    obtain ⟨response, events, hevents, hmem, htook⟩ := h
    refine ⟨response, before ++ events, ?_, List.mem_append_right _ hmem, hworld ▸ htook⟩
    rw [hevents, htrace, List.append_assoc]

/-- **An answer** on the wire. -/
theorem answer_wires (hfd : worker.socket.fd = some fd) (out : Option HTTPRequest) (p : Process) :
    (worker.answer lib out).Safe p (Wires lib fd p) := by
  unfold answer
  cases checkRequest lib.json out with
  | error response => exact reply_wires hfd response p
  | ok request =>
    refine (Prog.safe_bind_of_ok ((Prog.returns_ofFun ..).mpr rfl) _).mpr ?_
    obtain hcall | ⟨-, hcall⟩ | ⟨link, -, -, hcall⟩ :=
      call_cases lib worker request (handlerMapper request.resource)
    · rw [hcall 0]
      exact (reply_wires hfd _ _).mono fun o => .earlier rfl rfl
    · rw [hcall]
      refine (Prog.safe_bind_of_ok ((Prog.returns_ofFun ..).mpr rfl) _).mpr ?_
      exact (reply_wires hfd _ _).mono fun o => .earlier rfl rfl
    · rw [hcall]
      exact (reportLink_wires hfd link _).mono fun o => .earlier rfl rfl

/-- Nothing has been sent on a descriptor, and the others are as they were. -/
structure Unsent (fd : Fd) (w w' : World) : Prop where
  own : ∀ d, w.descriptors fd = some d → ∃ d', w'.descriptors fd = some d' ∧
    d'.accepted = d.accepted ∧ d'.peer.sends = d.peer.sends
  others : ∀ fd', fd' ≠ fd → w'.descriptors fd' = w.descriptors fd'

theorem unsent_of_descriptors (fd : Fd) {w w' : World} (h : w'.descriptors = w.descriptors) :
    Unsent fd w w' := ⟨fun d hd => ⟨d, by rw [h, hd], rfl, rfl⟩, fun fd' _ => by rw [h]⟩

theorem unsent_of_update {fd : Fd} {w w' : World} {d d' : Descriptor}
    (hd : w.descriptors fd = some d)
    (h : w'.descriptors = Function.update w.descriptors fd (some d'))
    (haccepted : d'.accepted = d.accepted) (hsends : d'.peer.sends = d.peer.sends) :
    Unsent fd w w' := by
  refine ⟨fun d₀ hd₀ => ?_, fun fd' hne => ?_⟩
  · rw [hd] at hd₀
    cases hd₀
    exact ⟨d', by rw [h, Function.update_self], haccepted, hsends⟩
  · rw [h, Function.update_of_ne hne]

/-- Setting a time-out sends nothing. -/
theorem unsent_setTimeout {sock : TCPSocket} (hfd : sock.fd = some fd) (timeoutMs : UInt32)
    (option : TimeoutOption) (w : World) :
    Unsent fd w (sock.setTimeout timeoutMs option w).2.2 := by
  obtain hsame | ⟨fd', sec, usec, hfd', hset⟩ := sock.setTimeout_world timeoutMs option w
  · exact unsent_of_descriptors fd (by rw [hsame])
  · rw [hfd] at hfd'
    cases hfd'
    rw [hset]
    obtain ⟨-, hsame | ⟨d, r, s, hd, hupdate⟩⟩ := w.setsockopt_spec fd option sec usec
    · exact unsent_of_descriptors fd hsame
    · exact unsent_of_update hd hupdate rfl rfl

/-- Receiving sends nothing. -/
theorem unsent_setRecvs {sock : TCPSocket} (hfd : sock.fd = some fd) (recvs : List RecvResult)
    (w : World) : Unsent fd w (sock.setRecvs recvs w) := by
  unfold TCPSocket.setRecvs
  rw [hfd]
  dsimp only
  cases hd : w.descriptors fd with
  | none => exact unsent_of_descriptors fd rfl
  | some d => exact unsent_of_update hd rfl rfl rfl

/-- What is taken may be counted from before anything was sent. -/
theorem Took.of_unsent {text : Bytes} {w w' w'' : World} (h : Unsent fd w w')
    (h' : Took fd text w' w'') : Took fd text w w'' := by
  refine ⟨fun d hd hlen => ?_, fun fd' d hne hd => ?_⟩
  · obtain ⟨d', hd', haccepted, hsends⟩ := h.own d hd
    obtain ⟨d'', k, hd'', htaken, hall⟩ := h'.own d' hd' hlen
    refine ⟨d'', k, hd'', by rw [htaken, haccepted], fun htakes => hall ?_⟩
    unfold Descriptor.TakesAll
    rwa [hsends]
  · exact h'.others fd' d hne (by rw [h.others fd' hne, hd])

/-- A worker that returns has sent the reply of the service, or a beginning of it. -/
theorem run_took {worker' : HTTPWorker} {p p' : Process} (hfd : worker.socket.fd = some fd)
    (hread : Readable (delivered (worker.socket.recvs p.world)))
    (h : (worker.run lib).Returns p (.ok worker' p')) :
    ∃ reply, replyTo lib.json p.queryID
        (requestOf (delivered (worker.socket.recvs p.world))) = .ok reply ∧
      Took fd (responseText lib reply.response) p.world p'.world := by
  obtain ⟨reply, events, hreply, hgiven, htrace, -⟩ := run_replied hread h
  refine ⟨reply, hreply, ?_⟩
  obtain ⟨s, ⟨request, -, hanswer⟩ | ⟨e, ⟨⟩⟩⟩ := run_cases h
  obtain ⟨u, q, hanswer, hpure⟩ | ⟨_, _, -, ⟨⟩⟩ := (Prog.returns_bind ..).mp hanswer
  cases (Prog.returns_pure ..).mp hpure
  have hfd' : (worker.socket.setTimeout 10 .SO_RCVTIMEO p.world).2.1.fd = some fd := by
    rw [TCPSocket.setTimeout_fd, hfd]
  obtain ⟨response, events', htrace', hmem, htook⟩ :=
    answer_wires (by exact hfd') request _ _ hanswer
  -- Both are about the one response that has been handed to `send`.
  have hsame : response = reply.response := by
    have hevents : events' = events := List.append_cancel_left (htrace'.symm.trans htrace)
    have hresponse : response ∈ events.filterMap Event.handedResponse :=
      List.mem_filterMap.mpr ⟨_, hevents ▸ hmem, rfl⟩
    rw [hgiven.responses] at hresponse
    exact List.mem_singleton.mp hresponse
  rw [← hsame]
  have hset := unsent_setTimeout hfd 10 .SO_RCVTIMEO p.world
  exact .of_unsent hset (.of_unsent (unsent_setRecvs hfd' s.socket _) htook)

end

/-! ### What a client reads -/

section

variable {json : Nlohmann}

/-- What a client can be told: a success, the refusals and the errors. -/
def statuses : List (UInt32 × Bytes) :=
  [(200, bytes "OK"), (400, bytes "Bad Request"), (404, bytes "Not Found"),
    (405, bytes "Method Not Allowed"), (411, bytes "Length Required"),
    (505, bytes "HTTP Version Not Supported")]

/-- They make proper status lines. -/
theorem isStatus_of_mem {code : UInt32} {status : Bytes} (h : (code, status) ∈ statuses) :
    code ≠ 0 ∧ IsStatus status := by
  have hall : ∀ s ∈ statuses, s.1 ≠ 0 ∧ s.2 ≠ [] ∧ newline ∉ s.2 ∧
      ∀ c ∈ s.2.head?, isspace c = false := by decide +kernel
  obtain ⟨hcode, hne, hnewline, hhead⟩ := hall _ h
  exact ⟨hcode, hne, hnewline, hhead⟩

/-- A response with one of these and a JSON body, or what is thrown while it is built. -/
def IsJsonResponse (json : Nlohmann) (response : Except Exn HTTPResponse) : Prop :=
  ∃ code status body, (code, status) ∈ statuses ∧
    response = HTTPResponse.ofJson json code status body

/-- A response with a JSON body and a status out of the table is one of those. -/
theorem isJsonResponse {code : UInt32} {status : Bytes} (body : Json)
    (h : (code, status) ∈ statuses) :
    IsJsonResponse json (HTTPResponse.ofJson json code status body) := ⟨code, status, body, h, rfl⟩

/-- The refusals of `run` have a JSON body and a status out of the table. -/
theorem checkRequest_error {out : Option HTTPRequest} {response : Except Exn HTTPResponse}
    (h : checkRequest json out = .error response) : IsJsonResponse json response := by
  cases out with
  | none =>
    cases h
    exact isJsonResponse _ (by decide)
  | some request =>
    have hparsed : checkParsed json request = .error response := h
    -- An admitted request has no error response; any other one fails at the version, at the missing
    -- header or at the length.
    by_cases hadmitted : Admitted request
    · rw [checkParsed_admitted json hadmitted] at hparsed
      cases hparsed
    by_cases hversion : request.version = bytes "HTTP/1.1"
    · have hbody : request.body ≠ [] := fun hbody => hadmitted ⟨hversion, .inl hbody⟩
      cases hheader : request.headers.lookup contentLength with
      | none =>
        rw [checkParsed_missing json hversion hbody hheader] at hparsed
        cases hparsed
        exact isJsonResponse _ (by decide)
      | some header =>
        have hfail : ¬ PassesLength header request.body :=
          fun hpass => hadmitted ⟨hversion, .inr ⟨header, hheader, hpass⟩⟩
        obtain ⟨msg, hcheck, -⟩ := checkParsed_fails json hversion hbody hheader hfail
        rw [hcheck] at hparsed
        cases hparsed
        exact isJsonResponse _ (by decide)
    · unfold checkParsed at hparsed
      rw [if_pos hversion] at hparsed
      cases hparsed
      exact isJsonResponse _ (by decide)

/-- The refusals of `v0reportSearchResults` have them too. -/
theorem reportedLink_error {request : HTTPRequest} {response : Except Exn HTTPResponse}
    (h : reportedLink json request = .error response) : IsJsonResponse json response := by
  unfold reportedLink at h
  split at h
  · cases h
    exact isJsonResponse _ (by decide)
  split at h
  · cases h
    exact isJsonResponse _ (by decide)
  cases hlink : clickedLink json request.body with
  | error e =>
    rw [hlink] at h
    cases h
    exact isJsonResponse _ (by decide)
  | ok link =>
    rw [hlink] at h
    cases h

/-- A response of the service. -/
def Built (json : Nlohmann) (r : HTTPResponse) : Prop :=
  r = HTTPResponse.ofStatus 200 (bytes "OK") ∨ IsJsonResponse json (.ok r)

/-- Every handler builds its response in one of these ways. -/
theorem handlerResponse_built {id : UInt32} {request : HTTPRequest} {handler : Handler}
    {r : HTTPResponse} (h : handlerResponse json id request handler = .ok r) : Built json r := by
  cases handler with
  | v0getAutofill => exact .inr (h ▸ isJsonResponse _ (by decide))
  | v0getQueryID => exact .inr (h ▸ isJsonResponse _ (by decide))
  | v0reportSearchResults =>
    -- The only handler that can refuse the request: then the response is that of the refusal.
    unfold handlerResponse at h
    cases hlink : reportedLink json request with
    | error response =>
      rw [hlink] at h
      exact .inr (h ▸ reportedLink_error hlink)
    | ok link =>
      rw [hlink] at h
      cases h
      exact .inl rfl
  | v0submitFeedback =>
    cases h
    exact .inl rfl
  | v0getQueryData => exact .inr (h ▸ isJsonResponse _ (by decide))
  | v0reportMetrics =>
    cases h
    exact .inl rfl
  | notFound => exact .inr (h ▸ isJsonResponse _ (by decide))

/-- The response of every reply is built in one of these ways. -/
theorem replyTo_built {id : UInt32} {out : Option HTTPRequest} {reply : Reply}
    (h : replyTo json id out = .ok reply) : Built json reply.response := by
  obtain ⟨response, hcheck, rfl⟩ | ⟨request, response, -, hresponse, rfl⟩ := replyTo_cases h
  · exact .inr (checkRequest_error hcheck)
  · exact handlerResponse_built hresponse

/-- A bare 200 can be written and read back. -/
theorem sendable_ofStatus : (HTTPResponse.ofStatus 200 (bytes "OK")).Sendable where
  version := (⟨by decide +kernel, by decide +kernel⟩ : IsWord (bytes "HTTP/1.1"))
  code := by decide
  status := (isStatus_of_mem (by decide : (200, bytes "OK") ∈ statuses)).2
  headers := @portable_of_lists [] ∅ rfl (by simp) (by simp)
  body := .inl rfl

/-- **Every response of the service** is one that can be read back. -/
theorem replyTo_sendable (hdoc : json.Documented) {id : UInt32} {out : Option HTTPRequest}
    {reply : Reply} (h : replyTo json id out = .ok reply) : reply.response.Sendable := by
  obtain hplain | ⟨code, status, body, hmem, hbuilt⟩ := replyTo_built h
  · rw [hplain]
    exact sendable_ofStatus
  · obtain ⟨hcode, hstatus⟩ := isStatus_of_mem hmem
    exact sendable_ofJson hdoc hcode hstatus hbuilt.symm

end

section

variable {lib : Library} {worker worker' : HTTPWorker} {fd : Fd} {p p' : Process} {d : Descriptor}

/-- **A worker that returns** has sent its client the reply of the service or a beginning of it, and
    nothing else, and whatever else was open is as it was: no bytes of one client get to another
    one, to the listener or to Link Analysis. -/
theorem run_wire (hfd : worker.socket.fd = some fd) (hd : p.world.descriptors fd = some d)
    (hread : Readable (delivered (worker.socket.recvs p.world)))
    (h : (worker.run lib).Returns p (.ok worker' p')) :
    ∃ reply, replyTo lib.json p.queryID
        (requestOf (delivered (worker.socket.recvs p.world))) = .ok reply ∧
      ((responseText lib reply.response).length < 2 ^ 32 →
        ∃ d' sent, p'.world.descriptors fd = some d' ∧ d'.accepted = d.accepted ++ sent ∧
          sent <+: responseText lib reply.response) ∧
      ∀ fd' d', fd' ≠ fd → p.world.descriptors fd' = some d' →
        p'.world.descriptors fd' = some d' := by
  obtain ⟨reply, hreply, htook⟩ := run_took hfd hread h
  refine ⟨reply, hreply, fun hlen => ?_, htook.others⟩
  obtain ⟨d', k, hd', haccepted, -⟩ := htook.own d hd hlen
  exact ⟨d', _, hd', haccepted, List.take_prefix k _⟩

/-- The text of the reply to feedback. -/
def okText : Bytes := bytes "HTTP/1.1 200 OK\r\n\r\n"

/-- The client that submits feedback gets a bare 200, whatever `::send` answers. -/
theorem replyTo_feedback (sends : Stream' SendResult) {id : UInt32} {reply : Reply}
    (h : replyTo Nlohmann.plain id (requestOf (delivered (feedbackClient sends).recvs))
      = .ok reply) : reply.response = HTTPResponse.ofStatus 200 (bytes "OK") ∧
        responseText Library.plain reply.response = okText := by
  obtain ⟨s, hparse⟩ := parses_feedback
  obtain ⟨s', hparse'⟩ := parseRequest_reads _ (harmless_feedbackClient sends).readable
  rw [(Outcome.ok.inj (hparse'.unique hparse)).1] at h
  have hhandler : handlerMapper (feedback (bytes "5")).resource = .v0submitFeedback := by
    decide +kernel
  have hcheck : checkRequest Nlohmann.plain (some (feedback (bytes "5")))
      = .ok (feedback (bytes "5")) := checkParsed_admitted _ admitted_feedback
  have hreply := @replyTo_called Nlohmann.plain _ id (.ofStatus 200 (bytes "OK")) _ hcheck
    (by rw [hhandler]; rfl)
  cases h.symm.trans hreply
  refine ⟨rfl, ?_⟩
  rw [responseText_ofStatus]
  decide +kernel

/-- A client that takes two bytes, then goes away. -/
def goneClient : Peer := feedbackClient (.cons (.sent 2) (.const .failed))

/-- It gets a beginning of the reply. -/
theorem run_wire_gone : ∃ p' d', (∃ worker', (HTTPWorker.run Library.plain ⟨.ofFd 4⟩).Returns
    (acceptedFrom goneClient) (.ok worker' p')) ∧
      p'.world.descriptors 4 = some d' ∧ d'.accepted <+: okText := by
  have hharmless := harmless_feedbackClient (.cons (.sent 2) (.const .failed))
  obtain ⟨worker', p', hreturns, -⟩ := run_acceptedFrom hharmless
    (visitedBy_calm fun i => by cases i <;> exact ⟨nofun, nofun⟩)
  obtain ⟨reply, hreply, htaken, -⟩ := @run_wire Library.plain ⟨.ofFd 4⟩ worker' 4
    (acceptedFrom goneClient) p' (.fresh 8080 goneClient) rfl rfl hharmless.readable hreturns
  obtain ⟨-, htext⟩ := replyTo_feedback _ hreply
  obtain ⟨d', sent, hd', haccepted, hsent⟩ := htaken (by rw [htext]; decide)
  refine ⟨p', d', ⟨worker', hreturns⟩, hd', ?_⟩
  rw [haccepted, ← htext]
  exact hsent

/-- **A client that takes everything** reads the reply of the service in what it gets, however that
    is cut into chunks on the way: what is on the wire is the text of one response, which the
    program's own parser reads back. -/
theorem run_readBack (hdoc : lib.json.Documented) (hfd : worker.socket.fd = some fd)
    (hd : p.world.descriptors fd = some d) (hnew : d.accepted = [])
    (hread : Readable (delivered (worker.socket.recvs p.world)))
    (h : (worker.run lib).Returns p (.ok worker' p')) :
    ∃ reply, replyTo lib.json p.queryID
        (requestOf (delivered (worker.socket.recvs p.world))) = .ok reply ∧
      ((responseText lib reply.response).length < 2 ^ 32 - 1 →
        d.TakesAll (responseText lib reply.response).length →
          ∃ d', p'.world.descriptors fd = some d' ∧ ∀ rs, delivered rs = d'.accepted →
            ∃ s hs, parseResponse.Returns (SocketStream.ofSocket rs)
              (.ok (some { reply.response with headers := hs }) s) ∧
                LowerCased reply.response.headers hs) := by
  obtain ⟨reply, hreply, htook⟩ := run_took hfd hread h
  refine ⟨reply, hreply, fun hlen hall => ?_⟩
  obtain ⟨d', k, hd', haccepted, hwhole⟩ := htook.own d hd (by omega)
  refine ⟨d', hd', fun rs hrs => ?_⟩
  -- What the client has taken is the whole text of the response, so the parser reads that.
  rw [haccepted, hnew, List.nil_append, hwhole hall] at hrs
  obtain ⟨hs, hlower, hresponse⟩ :=
    responseOf_toString (replyTo_sendable hdoc hreply) (lib.lists reply.response.headers)
  obtain ⟨s, hparse⟩ := parseResponse_returns rs (by rw [hrs]; exact hlen)
  rw [hrs, responseText, hresponse] at hparse
  exact ⟨s, hs, hparse, hlower⟩

/-- A client that takes byte after byte. -/
theorem run_readBack_feedback : ∃ p' d', (∃ worker', (HTTPWorker.run Library.plain
    ⟨.ofFd 4⟩).Returns (acceptedFrom (feedbackClient (.const (.sent 1)))) (.ok worker' p')) ∧
      p'.world.descriptors 4 = some d' ∧
        ∃ s hs, parseResponse.Returns (SocketStream.ofSocket [some d'.accepted, none])
          (.ok (some { HTTPResponse.ofStatus 200 (bytes "OK") with headers := hs }) s) := by
  have hharmless := harmless_feedbackClient (.const (.sent 1))
  obtain ⟨worker', p', hreturns, -⟩ := run_acceptedFrom hharmless
    (visitedBy_calm fun _ => ⟨nofun, nofun⟩)
  obtain ⟨reply, hreply, hread⟩ := @run_readBack Library.plain ⟨.ofFd 4⟩ worker' 4
    (acceptedFrom (feedbackClient (.const (.sent 1)))) p'
    (.fresh 8080 (feedbackClient (.const (.sent 1)))) Nlohmann.plain_documented rfl rfl
    rfl hharmless.readable hreturns
  obtain ⟨hresponse, htext⟩ := replyTo_feedback _ hreply
  obtain ⟨d', hd', hparse⟩ := hread (by rw [htext]; decide) fun _ _ => ⟨1, rfl⟩
  refine ⟨p', d', ⟨worker', hreturns⟩, hd', ?_⟩
  obtain ⟨s, hs, hreturn, -⟩ := hparse [some d'.accepted, none] (by
    cases d'.accepted <;> simp [delivered])
  rw [hresponse] at hreturn
  exact ⟨s, hs, hreturn⟩

end

end Evaluation
