import Evaluation.Resilience
import Evaluation.Server

namespace Evaluation

open Lib HTTPWorker

/-!
# Which clients the server survives

* `loop_survives` — a round of the loop of `HTTPServer::run` uses up what `poll` reports, and keeps
  what is to come harmless;
* `run_survives` — the server is back at its `poll` after every client that sends what is harmless,
  however long it goes on taking the reply, unless a `::send` raises SIGPIPE or never returns;
* `run_survives_counterexample` — a header and a reset connection that bring it down.
-/

/-- What the clients to come send is harmless. -/
def World.ClientsHarmless (lib : Library) (w : World) : Prop :=
  ∀ fd peer, some (fd, peer) ∈ w.answers.accept → Harmless lib (delivered peer.recvs)

/-- Clients that are harmless stay so: they are those still to come. -/
theorem World.ClientsHarmless.later {lib : Library} {w w' : World} (hw : w.ClientsHarmless lib)
    (h : w.Later w') : w'.ClientsHarmless lib :=
  fun fd peer hmem => hw fd peer (h.accept.subset hmem)

section

variable {lib : Library}

/-- What an accepted connection gives was part of an answer to `accept`. -/
theorem accept_recvs {sock client : TCPSocket} {w : World}
    (h : (sock.accept w).1 = some client) :
    ∃ fd peer, some (fd, peer) ∈ w.answers.accept ∧
      client.recvs (sock.accept w).2 = peer.recvs := by
  unfold TCPSocket.accept at h ⊢
  cases hfd : sock.fd with
  | none =>
    rw [hfd] at h
    cases h
  | some fd =>
    rw [hfd] at h
    dsimp only at h ⊢
    -- A new descriptor stands for a peer that none of its bytes has been taken from.
    obtain ⟨-, ⟨hnone, -⟩ | ⟨fd', d, peer, hsome, -, -, hmem, hupdate⟩⟩ := w.accept_spec fd
    · rw [hnone] at h
      cases h
    · rw [hsome] at h
      cases h
      refine ⟨fd', peer, hmem, ?_⟩
      simp only [TCPSocket.recvs, TCPSocket.ofFd, Option.bind_some, hupdate,
        Function.update_self, Descriptor.fresh]

/-- Serving a harmless client comes back. -/
theorem serveClient_comesBack (hdoc : lib.json.Documented) {sock : TCPSocket} {p : Process}
    (h : Harmless lib (delivered (sock.recvs p.world))) :
    (HTTPServer.serveClient lib sock).Ends p (comesBack.Post p) := by
  refine Guarantee.ends_bind (run_comesBack hdoc h) fun worker p' _ => ?_
  apply onWorld_comesBack
  intro w
  exact (worker.socket.later_destroy w).trans (TCPSocket.later_destroy {} _)

/-- Accepting one and serving it comes back. -/
theorem acceptClient_comesBack (hdoc : lib.json.Documented) (server : HTTPServer) {p : Process}
    (h : p.world.ClientsHarmless lib) :
    (server.acceptClient lib).Ends p (comesBack.Post p) := by
  unfold HTTPServer.acceptClient
  rw [ends_onWorld_bind]
  apply Guarantee.ends_of_rel
  · exact server.listenerSocket.later_accept p.world
  · cases hclient : (server.listenerSocket.accept p.world).1 with
    | none => exact Guarantee.kept_pure () _
    | some client =>
      obtain ⟨fd, peer, hmem, hrecvs⟩ := accept_recvs hclient
      apply serveClient_comesBack hdoc
      rw [hrecvs]
      exact h fd peer hmem

/-- `init` asks the system for a listener, and takes no client and no result of `poll`. -/
theorem later_init (server : HTTPServer) (w : World) : w.Later (server.init w).2.2 := by
  have hcreate := server.listenerSocket.later_create w
  unfold HTTPServer.init
  -- `init` stops at the first of its three calls that fails.
  rcases hcall : server.listenerSocket.create w with ⟨_ | _, sock, w1⟩
  · rw [hcall] at hcreate
    exact hcreate
  · rw [hcall] at hcreate
    have hbind := sock.later_bind server.listenerPort w1
    dsimp only
    rcases hcall : sock.bind server.listenerPort w1 with ⟨_ | _, w2⟩
    · rw [hcall] at hbind
      -- `bind` failed: the world has gone through two of the calls,
      exact hcreate.trans hbind
    · rw [hcall] at hbind
      -- and here through all three.
      exact (hcreate.trans hbind).trans (sock.later_listen server.backlogSize w2)

/-- `HTTPServer::run` has returned, or is back at `poll` with everything served. -/
def AtPoll {α : Type} : Outcome Halt Process α → Prop
  | .ok _ _ => True
  | .error halt p => halt = .idle ∧ p.world.answers.poll = []

/-- A `::send` was fatal. -/
def Interrupted {α : Type} (p : Process) : Outcome Halt Process α → Prop
  | .ok _ _ => False
  | .error halt _ => FatalSend p halt

/-- What `poll` reports is used up. -/
theorem poll_next {w : World} {result : PollResult} {rest : List PollResult}
    (h : w.answers.poll = result :: rest) :
    w.poll.1 = some result ∧ w.poll.2.answers.poll = rest := by
  unfold World.poll World.next
  rw [h]
  exact ⟨rfl, rfl⟩

/-- **The loop of `run`** ends at `poll`: each round uses up what `poll` reports. -/
theorem loop_survives (hdoc : lib.json.Documented) (server : HTTPServer) {p : Process}
    (h : p.world.ClientsHarmless lib) :
    (Prog.loop (server.pollRound lib) ()).Ends p fun o => AtPoll o ∨ Interrupted p o := by
  refine Prog.ends_loop (fun _ p' => p.world.Later p'.world)
    (fun _ p' => p'.world.answers.poll.length) ?_ (World.Later.refl p.world)
  intro _ p' hlater
  unfold HTTPServer.pollRound
  rw [ends_onWorld_bind]
  have hpolled := hlater.trans p'.world.later_poll
  cases hpoll : p'.world.answers.poll with
  | nil =>
    have hnone : p'.world.poll.1 = none := by
      show p'.world.answers.poll.head? = none
      rw [hpoll]
      rfl
    rw [hnone]
    -- Nothing is to come: `poll` waits for ever.
    apply (Prog.ends_throw ..).mpr
    refine .inl ⟨rfl, ?_⟩
    show p'.world.answers.poll.tail = []
    rw [hpoll]
    rfl
  | cons result rest =>
    obtain ⟨hresult, hrest⟩ := poll_next hpoll
    rw [hresult]
    have hless : p'.world.poll.2.answers.poll.length < (result :: rest).length := by
      rw [hrest]
      exact Nat.lt_succ_self _
    cases result with
    | failed => exact (Prog.ends_pure ..).mpr (.inl trivial)
    | timedOut => exact (Prog.ends_pure ..).mpr ⟨hpolled, hless⟩
    | ready shutdown listener =>
      show (server.onReady lib shutdown listener).Ends _ _
      unfold HTTPServer.onReady
      split
      · -- The shutdown pipe.
        exact (Prog.ends_pure ..).mpr (.inl trivial)
      split
      · -- A client is served before the next `poll`.
        refine (acceptClient_comesBack hdoc server (h.later hpolled)).bind ?_ ?_
        · intro _ p'' hserved
          apply (Prog.ends_pure ..).mpr
          refine ⟨hpolled.trans hserved, ?_⟩
          exact lt_of_le_of_lt (List.IsSuffix.length_le (World.Later.poll hserved)) hless
        · intro halt p'' hfatal
          have hrel : comesBack.rel p { p' with world := p'.world.poll.2 } := hpolled
          exact .inr (comesBack.earlier hrel hfatal.2)
      · exact (Prog.ends_pure ..).mpr ⟨hpolled, hless⟩

/-- However the clients behave that send what is harmless, the server is back at `poll` unless a
    `::send` is fatal. -/
theorem run_atPoll_or_interrupted (hdoc : lib.json.Documented) (server : HTTPServer) {p : Process}
    (h : p.world.ClientsHarmless lib) :
    (server.run lib).Ends p fun o => AtPoll o ∨ Interrupted p o := by
  unfold HTTPServer.run
  rw [ends_onWorld_bind]
  have hinit := later_init server p.world
  have hrel : comesBack.rel p { p with world := (server.init p.world).2.2 } := hinit
  refine Prog.Ends.bind (R := fun o => AtPoll o ∨ Interrupted p o) ?_ ?_ ?_
  · unfold HTTPServer.loop
    split
    · -- What interrupts the loop interrupts the run that it is part of.
      refine (loop_survives hdoc _ (h.later hinit)).mono fun o ho => ho.imp_right ?_
      intro hfatal
      cases o with
      | ok result p' => exact hfatal
      | error halt p' => exact comesBack.earlier hrel hfatal
    · exact (Prog.ends_pure ..).mpr (.inl trivial)
  · intro result p' _
    exact (Prog.ends_pure ..).mpr (.inl trivial)
  · intro halt p' ho
    exact ho

/-- No `::send` to come finds its connection reset or never returns. -/
def World.Calm (w : World) : Prop := ¬ w.Pending .reset ∧ ¬ w.Pending .blocked

/-- It stays so. -/
theorem World.Calm.later {w w' : World} (hw : w.Calm) (h : w.Later w') : w'.Calm :=
  ⟨fun hp => hw.1 (h.pending _ (by simp) hp), fun hp => hw.2 (h.pending _ (by simp) hp)⟩

/-- No `::send` is fatal then. -/
theorem World.Calm.not_fatal {p : Process} (hcalm : p.world.Calm) (halt : Halt) :
    ¬ FatalSend p halt := by
  rintro (⟨-, hreset⟩ | ⟨-, hblocked⟩)
  · exact hcalm.1 hreset
  · exact hcalm.2 hblocked

/-- Where every `::send` goes through, nothing interrupts it. -/
theorem run_atPoll (hdoc : lib.json.Documented) (server : HTTPServer) {p : Process}
    (h : p.world.ClientsHarmless lib) (hcalm : p.world.Calm) : (server.run lib).Ends p AtPoll := by
  refine (run_atPoll_or_interrupted hdoc server h).mono fun o ho => ho.resolve_right ?_
  intro hinterrupted
  cases o with
  | ok result p' => exact hinterrupted
  | error halt p' => exact hcalm.not_fatal halt hinterrupted

/-- **No client brings the server down** that sends what is harmless: after every client
    `HTTPServer::run` is back at its `poll`, unless a `::send` raises SIGPIPE or never returns. -/
theorem run_survives (hdoc : lib.json.Documented) (server : HTTPServer) {p : Process}
    (h : p.world.ClientsHarmless lib) :
    ((server.run lib).Ends p fun o => AtPoll o ∨ Interrupted p o) ∧
      (p.world.Calm → (server.run lib).Ends p AtPoll) :=
  ⟨run_atPoll_or_interrupted hdoc server h, run_atPoll hdoc server h⟩

end

/-- A server for port 8080 that is about to start. -/
def server8080 : HTTPServer := { listenerPort := 8080, backlogSize := 10 }

/-- The process that it starts in, which gets one client. -/
def visitedBy (client : Peer) : Process where
  world :=
    { descriptors := fun _ => none
      portsInUse := ∅
      answers :=
        { socket := [some 3]
          bind := [some 8080]
          accept := [some (4, client)]
          poll := [.ready false true] } }
  queryID := 0
  trace := []

/-- Nothing else is to come in it than what the client does. -/
theorem visitedBy_calm {client : Peer}
    (h : ∀ i, client.sends.get i ≠ .reset ∧ client.sends.get i ≠ .blocked) :
    (visitedBy client).world.Calm := by
  constructor
  · rintro (⟨fd, d, ⟨⟩, _⟩ | ⟨fd, peer, hmem, i, hi⟩ | ⟨port, peer, ⟨⟩, _⟩)
    cases List.mem_singleton.mp hmem
    exact (h i).1 hi.symm
  · rintro (⟨fd, d, ⟨⟩, _⟩ | ⟨fd, peer, hmem, i, hi⟩ | ⟨port, peer, ⟨⟩, _⟩)
    cases List.mem_singleton.mp hmem
    exact (h i).2 hi.symm

/-- A client that sends a request which states the length of its body. -/
def feedbackClient (sends : Stream' SendResult) : Peer :=
  ⟨[some (feedbackText (bytes "5"))], sends⟩

/-- The request passes the checks of `run`. -/
theorem admitted_feedback : Admitted (feedback (bytes "5")) := by
  have hheader : (feedback (bytes "5")).headers.lookup contentLength = some (bytes "5") :=
    Finmap.lookup_insert _
  have hpass : PassesLength (bytes "5") (feedback (bytes "5")).body :=
    ⟨5, by decide +kernel, by decide +kernel⟩
  exact ⟨rfl, .inr ⟨_, hheader, hpass⟩⟩

/-- It is what is read. -/
theorem parses_feedback :
    ∃ s, parseRequest.Returns (SocketStream.ofSocket [some (feedbackText (bytes "5"))])
      (.ok (some (feedback (bytes "5"))) s) := ⟨_, 200, rfl⟩

/-- So the client is harmless, whatever it does with the reply. -/
theorem harmless_feedbackClient (sends : Stream' SendResult) :
    Harmless Library.plain (delivered (feedbackClient sends).recvs) := by
  obtain ⟨s, hparse⟩ := parses_feedback
  have hread : Readable (delivered [some (feedbackText (bytes "5"))]) :=
    readable_of_short (by decide +kernel)
  refine harmless_of_parse hparse hread ?_ ?_
  · intro hversion hbody header hheader
    obtain hnone | ⟨header', hheader', hpass⟩ := admitted_feedback.2
    · exact absurd hnone hbody
    · cases hheader.symm.trans hheader'
      exact .inl hpass
  · exact answeredTersely_of_bare (checkParsed_admitted _ admitted_feedback) (by decide +kernel)

/-- The server is back at `poll` when such a client has taken the reply byte after byte. -/
theorem run_survives_feedback :
    (server8080.run Library.plain).Ends (visitedBy (feedbackClient (.const (.sent 1))))
      AtPoll := by
  refine (run_survives Nlohmann.plain_documented server8080 ?_).2
    (visitedBy_calm fun _ => ⟨nofun, nofun⟩)
  intro fd client hmem
  cases List.mem_singleton.mp hmem
  exact harmless_feedbackClient _

/-- The process when the client has been accepted. -/
def acceptedFrom (client : Peer) : Process :=
  let started := server8080.init (visitedBy client).world
  { visitedBy client with world := (started.2.1.listenerSocket.accept started.2.2.poll.2).2 }

/-- The first round is for the client. -/
theorem acceptClient_visitedBy (lib : Library) (client : Peer)
    (r : Outcome Halt Process Unit) :
    ((server8080.init (visitedBy client).world).2.1.acceptClient lib).Returns
        (HTTPServer.polled (server8080.initialised (visitedBy client))) r ↔
      (HTTPServer.serveClient lib (.ofFd 4)).Returns (acceptedFrom client) r :=
  Prog.returns_bind_of_ok ((Prog.returns_ofFun ..).mpr rfl) r

/-- What ends the worker ends the server. -/
theorem run_of_worker {lib : Library} {client : Peer} {halt : Halt} {p : Process}
    (h : (HTTPWorker.run lib ⟨.ofFd 4⟩).Returns (acceptedFrom client) (.error halt p)) :
    (server8080.run lib).Returns (visitedBy client) (.error halt p) := by
  have hserve : (HTTPServer.serveClient lib (.ofFd 4)).Returns (acceptedFrom client)
      (.error halt p) := (Prog.returns_bind_of_error h _).mpr rfl
  have haccept := (acceptClient_visitedBy lib client _).mpr hserve
  have hround := (HTTPServer.pollRound_client rfl _).mpr
    ((Prog.returns_bind_of_error haccept _).mpr rfl)
  have hpoll : HTTPServer.ReachesPoll lib server8080 (visitedBy client)
      (server8080.initialised (visitedBy client)) := ⟨rfl, .refl⟩
  exact hpoll.halts hround

/-- The client is accepted from the queue. -/
theorem later_acceptedFrom (client : Peer) :
    (visitedBy client).world.Later (acceptedFrom client).world :=
  ((later_init server8080 _).trans (World.later_poll _)).trans (TCPSocket.later_accept _ _)

/-- A worker that returns, and leaves nothing for `poll` to report, leaves the server waiting. -/
theorem run_of_served {lib : Library} {client : Peer} {worker : HTTPWorker} {p : Process}
    (h : (HTTPWorker.run lib ⟨.ofFd 4⟩).Returns (acceptedFrom client) (.ok worker p))
    (hpoll : p.world.answers.poll = []) :
    ∃ p', p'.trace = p.trace ∧ (server8080.run lib).Returns (visitedBy client)
      (.error .idle p') := by
  let waiting : Process :=
    { p with world := ({} : TCPSocket).destroy (worker.socket.destroy p.world) }
  have hserve : (HTTPServer.serveClient lib (.ofFd 4)).Returns (acceptedFrom client)
      (.ok () waiting) := (Prog.returns_bind_of_ok h _).mpr ((Prog.returns_ofFun ..).mpr rfl)
  have haccept := (acceptClient_visitedBy lib client _).mpr hserve
  have hround := (HTTPServer.pollRound_client rfl _).mpr
    ((Prog.returns_bind_of_ok haccept _).mpr ((Prog.returns_pure ..).mpr rfl))
  have hfirst : HTTPServer.ReachesPoll lib server8080 (visitedBy client)
      (server8080.initialised (visitedBy client)) := ⟨rfl, .refl⟩
  -- Back at `poll`, which has nothing more to report.
  have hnone : waiting.world.poll.1 = none := by
    have hsuf := World.Later.poll (worker.socket.later_destroy p.world)
    rw [hpoll] at hsuf
    show (worker.socket.destroy p.world).answers.poll.head? = none
    rw [List.suffix_nil.mp hsuf]
    rfl
  exact ⟨HTTPServer.polled waiting, rfl,
    (hfirst.next hround).halts (HTTPServer.pollRound_idle hnone)⟩

/-- A request whose `content-length` is the byte 255. -/
def unquotable : HTTPRequest where
  method := .GET
  resource := bytes "/"
  version := bytes "HTTP/1.1"
  headers := (∅ : Headers).insert contentLength [255]
  body := bytes "x"

/-- Its text. -/
def unquotableText : Bytes :=
  bytes "GET / HTTP/1.1\r\nContent-Length: " ++ [255] ++ bytes "\r\n\r\nx"

/-- A `content-length` that is not UTF-8 brings the server down with an exception, and a client
    that resets its connection before it has sent anything with a signal. -/
theorem run_survives_counterexample :
    (∃ p, (server8080.run Library.plain).Returns
      (visitedBy ⟨[some unquotableText], .const (.sent 1)⟩) (.error (.uncaught .typeError) p)) ∧
    (∃ p, (server8080.run Library.plain).Returns (visitedBy ⟨[], .const .reset⟩)
      (.error .sigpipe p)) ∧
    ¬ ∀ client, (server8080.run Library.plain).Ends (visitedBy client) AtPoll := by
  -- A report that quotes a byte no UTF-8 text has makes `dump` throw,
  have hexception : ∃ p, (server8080.run Library.plain).Returns
      (visitedBy ⟨[some unquotableText], .const (.sent 1)⟩) (.error (.uncaught .typeError) p) := by
    have hparse : parseRequest.Returns (SocketStream.ofSocket [some unquotableText])
        (.ok (some unquotable) _) := ⟨100, rfl⟩
    have hquotable : ¬ Quotable unquotable := by
      intro h
      rcases h rfl (by decide) [255] (Finmap.lookup_insert _) with ⟨n, ⟨⟩, -⟩ | hutf8
      cases hutf8
    obtain ⟨o, ho, p, rfl⟩ := @run_uncaught Library.plain Nlohmann.plain_documented ⟨.ofFd 4⟩
      (acceptedFrom ⟨[some unquotableText], .const (.sent 1)⟩) unquotable _ hparse hquotable
    exact ⟨p, run_of_worker ho⟩
  -- and a connection reset by the client raises SIGPIPE.
  have hsignal : ∃ p, (server8080.run Library.plain).Returns (visitedBy ⟨[], .const .reset⟩)
      (.error .sigpipe p) := by
    obtain ⟨o, ho, p, rfl⟩ := @run_killed Library.plain Nlohmann.plain_documented ⟨.ofFd 4⟩
      (acceptedFrom ⟨[], .const .reset⟩) (readable_of_short (by decide))
      (fun request hrequest => by cases hrequest) ⟨4, _, rfl, rfl, rfl⟩
    exact ⟨p, run_of_worker ho⟩
  refine ⟨hexception, hsignal, fun hall => ?_⟩
  obtain ⟨p, hp⟩ := hsignal
  cases ((hall _).of_returns hp).1

end Evaluation
