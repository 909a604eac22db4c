import Evaluation.Clicked
import Evaluation.Descriptors

namespace Evaluation

open Lib

/-!
# The server leaks no descriptor

An accepted descriptor passes from `accept` to the worker, whose destructor closes it; a handler
may open a second one in the meantime, which is closed before the handler returns.  So each round
of the loop closes what it has opened, and nothing else.

* `World.Settled` — what has been opened since has been closed, and nothing else;
* `settled_forward`, `settled_acceptClient` — the exchange with Link Analysis, and a client;
* `serve_leaks_nothing` — each time control reaches `poll` the listener is all that is open, and
  at the end not even that.
-/

namespace World

/-- What has been opened on the way has been closed again, and nothing else. -/
structure Settled (w w' : World) : Prop where
  close : w'.answers.close <:+ w.answers.close
  openFds : w'.openFds = w.openFds
  ledger : ∃ es, w'.ledger = w.ledger ++ es ∧ Balanced w.openFds es

/-- A stretch that opens and closes nothing leaves nothing open. -/
theorem Untouched.settled {w w' : World} (h : w.Untouched w') : w.Settled w' :=
  ⟨h.close, h.openFds, [], by rw [h.ledger, List.append_nil], balanced_nil _⟩

theorem Settled.refl (w : World) : w.Settled w := (Untouched.refl w).settled

theorem Settled.trans {w w' w'' : World} (h : w.Settled w') (h' : w'.Settled w'') :
    w.Settled w'' := by
  obtain ⟨es, hes, hbalanced⟩ := h.ledger
  obtain ⟨fs, hfs, hbalanced'⟩ := h'.ledger
  rw [h.openFds] at hbalanced'
  refine ⟨h'.close.trans h.close, h'.openFds.trans h.openFds, es ++ fs, ?_,
    hbalanced.append hbalanced'⟩
  rw [hfs, hes, List.append_assoc]

/-- Where `::close` never fails, it never fails later. -/
theorem Settled.canClose {w w' : World} (h : w.Settled w') (hw : w.CanClose) : w'.CanClose :=
  fun succeeds hmem => hw succeeds (h.close.subset hmem)

/-- `poll` opens nothing. -/
theorem settled_poll (w : World) : w.Settled w.poll.2 :=
  ⟨List.suffix_rfl, rfl, [], (List.append_nil _).symm, balanced_nil _⟩

/-- A descriptor is opened and, some time later, closed. -/
theorem Opens.ledger_of_closes {w w₁ w₂ w₃ : World} {fd : Fd} (hopens : w.Opens fd w₁)
    (h : w₁.Settled w₂) (hcloses : w₂.Closes fd w₃) : ∃ es, Balanced (insert fd w.openFds) es ∧
      w₃.ledger = w.ledger ++ .opened fd :: (es ++ [.closed fd]) := by
  obtain ⟨es, hes, hbalanced⟩ := h.ledger
  rw [hopens.openFds] at hbalanced
  refine ⟨es, hbalanced, ?_⟩
  rw [hcloses.ledger, hes, hopens.ledger]
  simp only [List.append_assoc, List.cons_append, List.nil_append]

/-- What is opened first and closed last, with a settled stretch between, is settled. -/
theorem Opens.settled {w w₁ w₂ w₃ : World} {fd : Fd} (hopens : w.Opens fd w₁)
    (h : w₁.Settled w₂) (hcloses : w₂.Closes fd w₃) : w.Settled w₃ := by
  obtain ⟨es, hbalanced, hledger⟩ := hopens.ledger_of_closes h hcloses
  refine ⟨(hcloses.close.trans h.close).trans hopens.close, ?_, _, hledger,
    hbalanced.wrap hopens.fresh⟩
  rw [hcloses.openFds, h.openFds, hopens.openFds]
  exact Set.insert_sdiff_self_of_notMem hopens.fresh

end World

section

open HTTPWorker

variable {lib : Library} {w₀ : World}

/-- The Link Analysis socket is closed on every way out of the exchange. -/
theorem settled_forward (hclose : w₀.CanClose) (link : Bytes) :
    Leads w₀.Settled (forward lib link) fun _ => w₀.Settled := by
  refine (leads_onWorld_same fun w hw =>
    hw.trans (TCPSocket.untouched_getIP ..).settled).bind fun ip => ?_
  refine Leads.bind (J := fun created w => (created.2.fd = none ∧ w₀.Settled w) ∨
    ∃ fd w₁, created.2.fd = some fd ∧ w₀.Settled w₁ ∧ w₁.Opens fd w) ?_ fun created => ?_
  · -- There is a socket from here on, or there is none: what comes next knows which.
    apply leads_onWorld
    intro w hw
    obtain ⟨-, hfd, hcreate⟩ | ⟨fd, -, hfd, hcreate⟩ := ({} : TCPSocket).opens_create w
    · exact .inl ⟨hfd, hw.trans hcreate.settled⟩
    · exact .inr ⟨fd, w, hfd, hw, hcreate⟩
  · refine (leads_exchangeLink ?_ created.1 created.2 ip link).bind fun _ => ?_
    · rintro w w' (⟨hfd, hw⟩ | ⟨fd, w₁, hfd, hw, hopens⟩) hw'
      · exact .inl ⟨hfd, hw.trans hw'.settled⟩
      · exact .inr ⟨fd, w₁, hfd, hw, hopens.trans hw'⟩
    · apply leads_onWorld
      rintro w (⟨hfd, hw⟩ | ⟨fd, w₁, hfd, hw, hopens⟩)
      · show w₀.Settled (created.2.destroy w)
        rw [TCPSocket.destroy_none hfd]
        exact hw
      · have hopen : fd ∈ w.openFds := by
          rw [hopens.openFds]
          exact Set.mem_insert fd _
        have hcloses := TCPSocket.closes_destroy hfd hopen
          (hopens.toBetween.canClose (hw.canClose hclose))
        exact hw.trans (hopens.settled (.refl w) hcloses)

/-- The connection is closed when the client has been served. -/
theorem settled_serveClient (hclose : w₀.CanClose) (fd : Fd) :
    Leads (w₀.Opens fd) (HTTPServer.serveClient lib (.ofFd fd)) fun _ => w₀.Settled := by
  intro p hopens
  have hcanClose := hopens.toBetween.canClose hclose
  have hrun := @leads_run lib _ (fun w w' hw hw' => hw.trans hw'.settled)
    (settled_forward hcanClose) ⟨(TCPSocket.ofFd fd).moveConstruct.1⟩
  refine (hrun.bind fun worker => ?_) p (.refl p.world)
  apply leads_onWorld
  rintro w ⟨hfd, hw⟩
  have hopen : fd ∈ w.openFds := by
    rw [hw.openFds, hopens.openFds]
    exact Set.mem_insert fd _
  have hcloses := TCPSocket.closes_destroy hfd hopen (hw.canClose hcanClose)
  -- What the socket was moved from holds nothing any more.
  show w₀.Settled ((TCPSocket.ofFd fd).moveConstruct.2.destroy (worker.socket.destroy w))
  rw [TCPSocket.destroy_none rfl]
  exact hopens.settled hw hcloses

/-- Serving a client leaves nothing open. -/
theorem settled_acceptClient (hclose : w₀.CanClose) (server : HTTPServer) :
    Leads w₀.Settled (server.acceptClient lib) fun _ => w₀.Settled := by
  intro p hp
  unfold HTTPServer.acceptClient
  rw [safe_onWorld_bind]
  obtain ⟨hnone, huntouched⟩ | ⟨fd, hsome, hopens⟩ := server.listenerSocket.opens_accept p.world
  · rw [hnone]
    exact (Prog.safe_pure ..).mpr (hp.trans huntouched.settled)
  · rw [hsome]
    refine (settled_serveClient (hp.canClose hclose) fd _ hopens).mono ?_
    rintro (⟨_, p'⟩ | ⟨halt, p'⟩) ho
    · exact hp.trans ho
    · exact ho

end

/-! ### The run -/

namespace HTTPServer

section

variable {lib : Library} {server server' : HTTPServer} {p p' q : Process} {result : Bool}

/-- A round closes what it has opened. -/
theorem settled_pollRound (server : HTTPServer) (hclose : q.world.CanClose) :
    (server.pollRound lib ()).Safe q
      (Prog.Within (fun _ q' => q.world.Settled q'.world) fun _ _ => True) := by
  have hpolled : q.world.Settled (polled q).world := q.world.settled_poll
  apply safe_pollRound
  · exact fun _ => trivial
  · exact fun _ => hpolled
  · exact fun _ _ => hpolled
  · exact fun _ => hpolled
  · intro _
    refine (settled_acceptClient hclose server _ hpolled).bind ?_ ?_
    · exact fun _ q' hq' => (Prog.safe_pure ..).mpr hq'
    · exact fun halt q' _ => trivial

/-- `init` leaves `::close` working. -/
theorem canClose_initialised (server : HTTPServer) (hclose : p.world.CanClose) :
    (server.initialised p).world.CanClose := (server.between_init p.world).canClose hclose

/-- Every time control reaches `poll`, all that was opened behind `init` has been closed. -/
theorem settled_reachesPoll (hclose : p.world.CanClose) (hq : server.ReachesPoll lib p q) :
    (server.initialised p).world.Settled q.world := by
  have hstart := server.canClose_initialised hclose
  refine hq.2.invariant (I := fun _ q => (server.initialised p).world.Settled q.world) ?_
    (.refl _)
  intro _ q _ q' hsettled hround
  exact hsettled.trans (settled_pollRound _ (hsettled.canClose hstart) _ hround)

/-- So it is when `run` returns. -/
theorem settled_run (hclose : p.world.CanClose)
    (h : (server.run lib).Returns p (.ok (result, server') p')) :
    server' = (server.init p.world).2.1 ∧ (server.initialised p).world.Settled p'.world := by
  obtain ⟨hserver, hloop⟩ := returns_run.mp h
  refine ⟨hserver, ?_⟩
  cases hinit : (server.init p.world).1 with
  | false =>
    rw [hinit] at hloop
    cases (Prog.returns_pure ..).mp hloop
    exact .refl _
  | true =>
    rw [hinit] at hloop
    obtain ⟨_, q, hpasses, hlast⟩ := Prog.Returns.last_round hloop
    have hsettled := settled_reachesPoll hclose ⟨hinit, hpasses⟩
    have hcanClose := hsettled.canClose (server.canClose_initialised hclose)
    exact hsettled.trans (settled_pollRound _ hcanClose _ hlast)

/-- What is left when the server has been built, run and destroyed; the listener, if it was opened,
    is the first descriptor that was opened and the last one that was closed. -/
theorem settled_serve {listenerPort : UInt16} {backlogSize : ℤ} {code : ℕ}
    (hclose : p.world.CanClose)
    (h : (serve lib listenerPort backlogSize).Returns p (.ok code p')) :
    p.world.Settled p'.world ∧
      ∀ fd,
        (HTTPServer.init { listenerPort, backlogSize } p.world).2.1.listenerSocket.fd = some fd →
        ∃ es, p'.world.ledger = p.world.ledger ++ .opened fd :: (es ++ [.closed fd]) ∧
          Balanced (insert fd p.world.openFds) es := by
  obtain ⟨⟨result, server'⟩, p'', hrun, hend⟩ | ⟨_, _, _, ⟨⟩⟩ := (Prog.returns_bind ..).mp h
  obtain ⟨rfl, hsettled⟩ := settled_run hclose hrun
  cases (Prog.returns_ofFun ..).mp hend
  -- What `run` has opened it has settled, but for the listener, which `main` destroys.
  show p.world.Settled (TCPSocket.destroy _ p''.world) ∧
    ∀ fd, _ → ∃ es, (TCPSocket.destroy _ p''.world).ledger = _ ∧ _
  obtain ⟨-, hfd, huntouched⟩ | ⟨fd, hfd, hopens⟩ :=
    HTTPServer.opens_init { listenerPort, backlogSize } p.world
  · -- There is no listener.
    rw [TCPSocket.destroy_none hfd]
    refine ⟨huntouched.settled.trans hsettled, ?_⟩
    intro fd hlistener
    cases hfd.symm.trans hlistener
  · have hopen : fd ∈ p''.world.openFds := by
      rw [hsettled.openFds]
      exact hopens.openFds ▸ Set.mem_insert fd _
    have hcanClose := hsettled.canClose (HTTPServer.canClose_initialised _ hclose)
    have hcloses := TCPSocket.closes_destroy hfd hopen hcanClose
    refine ⟨hopens.settled hsettled hcloses, ?_⟩
    intro fd' hlistener
    cases hfd.symm.trans hlistener
    obtain ⟨es, hbalanced, hledger⟩ := hopens.ledger_of_closes hsettled hcloses
    exact ⟨es, hledger, hbalanced⟩

end

/-- **No descriptor is leaked** by a server that is built, run and destroyed: each time control
    reaches `poll` the listener is the only descriptor that it has open; what was opened between
    two calls of `poll` has been closed once for each time that it was opened, and nothing else
    has; and at the end the listener, if it was opened, has been closed once, too. -/
theorem serve_leaks_nothing (lib : Library) (listenerPort : UInt16) (backlogSize : ℤ)
    {p : Process} (hclose : p.world.CanClose) :
    let server : HTTPServer := { listenerPort, backlogSize }
    let listener := (server.init p.world).2.1.listenerSocket.fd
    (∀ q, server.ReachesPoll lib p q → ∃ fd, listener = some fd ∧ fd ∉ p.world.openFds ∧
      q.world.openFds = insert fd p.world.openFds) ∧
    (∀ q q', server.ReachesPoll lib p q →
      ((server.init p.world).2.1.pollRound lib ()).Returns q (.ok (.inl ()) q') →
      ∃ es, q'.world.ledger = q.world.ledger ++ es ∧ Balanced q.world.openFds es ∧
        ∀ fd, es.count (.opened fd) = es.count (.closed fd)) ∧
    ∀ code p', (serve lib listenerPort backlogSize).Returns p (.ok code p') →
      p'.world.openFds = p.world.openFds ∧
      ∃ es, p'.world.ledger = p.world.ledger ++ es ∧ Balanced p.world.openFds es ∧
        ∀ fd, listener = some fd → es.count (.opened fd) = 1 ∧ es.count (.closed fd) = 1 := by
  intro server listener
  have hinit := server.opens_init p.world
  refine ⟨?_, ?_, ?_⟩
  · -- At every poll the listener is open and nothing else is new.
    intro q hq
    have hsettled := settled_reachesPoll hclose hq
    obtain ⟨hfailed, -, -⟩ | ⟨fd, hfd, hopens⟩ := hinit
    · cases hfailed.symm.trans hq.1
    · exact ⟨fd, hfd, hopens.fresh, hsettled.openFds.trans hopens.openFds⟩
  · -- Each round closes what it opens,
    intro q q' hq hround
    have hcanClose := (settled_reachesPoll hclose hq).canClose (server.canClose_initialised hclose)
    obtain ⟨es, hes, hbalanced⟩ := (settled_pollRound _ hcanClose _ hround).ledger
    exact ⟨es, hes, hbalanced, hbalanced.replays.count_eq⟩
  · -- and so does the whole of `serve`, the listener included.
    intro code p' h
    obtain ⟨hsettled, hlistener⟩ := settled_serve hclose h
    obtain ⟨es, hes, hbalanced⟩ := hsettled.ledger
    refine ⟨hsettled.openFds, es, hes, hbalanced, ?_⟩
    intro fd hfd
    obtain ⟨fs, hfs, hbalanced'⟩ := hlistener fd hfd
    rw [List.append_cancel_left (hes.symm.trans hfs)]
    exact hbalanced'.count_wrap

/-- A process in which the server serves a client that clicks a link, sends the link on to Link
    Analysis and is shut down; neither the client nor Link Analysis stays to the end. -/
def clickedThenShutDown : Process where
  world :=
    { descriptors := fun _ => none
      portsInUse := ∅
      answers :=
        { socket := [some 7, some 9]
          bind := [some 8080]
          accept := [some (8, ⟨[some clickText], .const .failed⟩)]
          connect := [some (40000, .absent)]
          getaddrinfo := [some (bytes "10.0.0.1")]
          poll := [.ready false true, .ready true false]
          close := [true, true, true] } }
  queryID := 0
  trace := []

/-- The round of the client. -/
theorem pollRound_clicked :
    (HTTPServer.pollRound secondClicked
      (HTTPServer.init { listenerPort := 8080, backlogSize := 10 }
        clickedThenShutDown.world).2.1 ()).Ends
      (HTTPServer.initialised { listenerPort := 8080, backlogSize := 10 } clickedThenShutDown)
      fun o => ∃ q, o = .ok (.inl ()) q ∧
        q.world.ledger = [.opened 7, .opened 8, .opened 9, .closed 9, .closed 8] := by
  have hrun : ((HTTPServer.pollRound secondClicked
      (HTTPServer.init { listenerPort := 8080, backlogSize := 10 }
        clickedThenShutDown.world).2.1 ()).run 400
      (HTTPServer.initialised { listenerPort := 8080, backlogSize := 10 }
        clickedThenShutDown)).any (fun o => match o with
          | .ok (.inl ()) q =>
            q.world.ledger == [.opened 7, .opened 8, .opened 9, .closed 9, .closed 8]
          | _ => false) = true := by decide +kernel
  -- The run is the one that was computed, with the ledger that was read off it.
  refine (Prog.ends_of_run hrun).mono ?_
  rintro (⟨⟨⟩ | _, q⟩ | _) hledger
  · exact ⟨q, rfl, eq_of_beq hledger⟩
  · cases hledger
  · cases hledger

/-- The whole of it. -/
theorem serve_clicked : (serve secondClicked 8080 10).Ends clickedThenShutDown fun o =>
    ∃ p', o = .ok 0 p' ∧ p'.trace.length = 3 := by
  have hrun : ((serve secondClicked 8080 10).run 400 clickedThenShutDown).any (fun o =>
      match o with
      | .ok code p' => code == 0 && p'.trace.length == 3
      | _ => false) = true := by decide +kernel
  refine (Prog.ends_of_run hrun).mono ?_
  rintro (⟨code, p'⟩ | _) hend
  · obtain ⟨hcode, htrace⟩ := Bool.and_eq_true_iff.mp hend
    exact ⟨p', by rw [eq_of_beq hcode], eq_of_beq htrace⟩
  · cases hend

/-- Behind the client the listener is left: the connection and the socket for Link Analysis have
    been opened and closed.  At the end the listener has been closed, too. -/
theorem serve_leaks_nothing_clicked : ∃ q p' es,
    HTTPServer.ReachesPoll secondClicked { listenerPort := 8080, backlogSize := 10 }
      clickedThenShutDown q ∧ q.world.openFds = insert 7 clickedThenShutDown.world.openFds ∧
    q.world.ledger = .opened 7 :: es ∧ .opened 8 ∈ es ∧ .opened 9 ∈ es ∧
    (∀ fd, es.count (.opened fd) = es.count (.closed fd)) ∧
    (serve secondClicked 8080 10).Returns clickedThenShutDown (.ok 0 p') ∧
    p'.world.openFds = clickedThenShutDown.world.openFds ∧
    p'.world.ledger.count (.opened 7) = 1 ∧ p'.world.ledger.count (.closed 7) = 1 := by
  have hclose : clickedThenShutDown.world.CanClose := by
    unfold World.CanClose
    decide
  obtain ⟨hopen, hround, hend⟩ :=
    @serve_leaks_nothing secondClicked 8080 10 clickedThenShutDown hclose
  obtain ⟨_, hserved, q, rfl, hledger⟩ := pollRound_clicked
  obtain ⟨_, hreturns, p', rfl, -⟩ := serve_clicked
  have hstart : HTTPServer.ReachesPoll secondClicked { listenerPort := 8080, backlogSize := 10 }
      clickedThenShutDown (HTTPServer.initialised { listenerPort := 8080, backlogSize := 10 }
        clickedThenShutDown) := ⟨rfl, .refl⟩
  obtain ⟨fd, hfd, -, hlistener⟩ := hopen q (hstart.next hserved)
  obtain rfl : 7 = fd := Option.some.inj hfd
  obtain ⟨es, hes, -, hcount⟩ := hround _ _ hstart hserved
  -- The entries of the round are those behind the one of the listener.
  have hsplit : es = [.opened 8, .opened 9, .closed 9, .closed 8] := by
    have hboth := hes.symm.trans hledger
    exact List.cons.inj hboth |>.2
  obtain ⟨hclosed, fs, hfs, -, hlast⟩ := hend 0 p' hreturns
  have hwhole : p'.world.ledger = fs := hfs
  refine ⟨q, p', es, hstart.next hserved, hlistener, hes, ?_, ?_, hcount, hreturns, hclosed, ?_⟩
  · rw [hsplit]
    decide
  · rw [hsplit]
    decide
  · rw [hwhole]
    exact hlast 7 rfl

end HTTPServer

end Evaluation
