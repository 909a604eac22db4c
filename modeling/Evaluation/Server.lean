import Evaluation.Worker

namespace Evaluation

open Lib

/-!
# `HTTPServer` — the loop over the clients

`init` opens the listener; `run` polls the shutdown pipe and the listener, and serves one client
after the other.  A `poll` past the end of its answers never returns, so a run of the model stops
there (`Halt.idle`), back at `poll`.
-/

structure HTTPServer where
  listenerPort : UInt16
  backlogSize : ℤ
  listenerSocket : TCPSocket := {}
  deriving DecidableEq, Repr

namespace HTTPServer

def init (server : HTTPServer) (w : World) : Bool × HTTPServer × World :=
  match server.listenerSocket.create w with
  | (false, sock, w) => (false, { server with listenerSocket := sock }, w)
  | (true, sock, w) => match sock.bind server.listenerPort w with
    | (false, w) => (false, { server with listenerSocket := sock }, w)
    | (true, w) =>
      let (listening, w) := sock.listen server.backlogSize w
      (listening, { server with listenerSocket := sock }, w)

/-- The worker for an accepted connection: it takes the socket over, runs, and is destroyed, and
    after it the object that the socket was moved from. -/
def serveClient (lib : Library) (sock : TCPSocket) : ServerM Unit := do
  let worker ← HTTPWorker.run lib ⟨sock.moveConstruct.1⟩
  onWorld fun w => ((), sock.moveConstruct.2.destroy (worker.socket.destroy w))

/-- What `run` does when the listener is ready. -/
def acceptClient (lib : Library) (server : HTTPServer) : ServerM Unit := do
  let client ← onWorld server.listenerSocket.accept
  match client with
  | none => pure ()
  | some sock => serveClient lib sock

/-- What `run` does with what `poll` reports; `break` ends the loop with `true`. -/
def onReady (lib : Library) (server : HTTPServer) (shutdown listener : Bool) :
    ServerM (Unit ⊕ Bool) :=
  if shutdown then pure (.inr true)
  else if listener then do
    acceptClient lib server
    pure (.inl ())
  else pure (.inl ())

/-- A round of the loop of `run`. -/
def pollRound (lib : Library) (server : HTTPServer) (_ : Unit) : ServerM (Unit ⊕ Bool) := do
  let result ← onWorld World.poll
  match result with
  | none => Prog.throw .idle
  | some .failed => pure (.inr false)
  | some .timedOut => pure (.inl ())
  | some (.ready shutdown listener) => onReady lib server shutdown listener

/-- `EXIT_FAILURE`, which is 1, as a `bool`. -/
def exitFailure : Bool := true

/-- The loop of `run`, or the exit before it. -/
def loop (lib : Library) (server : HTTPServer) (ready : Bool) : ServerM Bool :=
  if ready then Prog.loop (pollRound lib server) () else pure exitFailure

/-- `HTTPServer::run`; returns its result and the server as it is afterwards. -/
def run (lib : Library) (server : HTTPServer) : ServerM (Bool × HTTPServer) := do
  let started ← onWorld fun w => ((((server.init w).1, (server.init w).2.1)), (server.init w).2.2)
  let result ← loop lib started.2 started.1
  pure (result, started.2)

/-! ### `main` -/

/-- What `main` makes of the result: `EXIT_SUCCESS`, which is 0, or `EXIT_FAILURE`. -/
def exitCode (result : Bool) : ℕ := if result then 0 else 1

/-- The end of `main`: the server is built, run and destroyed. -/
def serve (lib : Library) (listenerPort : UInt16) (backlogSize : ℤ) : ServerM ℕ := do
  let ended ← run lib { listenerPort, backlogSize }
  onWorld fun w => (exitCode ended.1, ended.2.listenerSocket.destroy w)

/-! ### A round -/

/-- The process when `poll` has returned. -/
def polled (p : Process) : Process := { p with world := p.world.poll.2 }

section

variable {lib : Library} {server : HTTPServer} {p p' : Process}

/-- **A round** is what `poll` reports, and perhaps a client. -/
theorem safe_pollRound {Q : Outcome Halt Process (Unit ⊕ Bool) → Prop}
    (hidle : p.world.poll.1 = none → Q (.error .idle (polled p)))
    (hfailed : p.world.poll.1 = some .failed → Q (.ok (.inr false) (polled p)))
    (hshutdown : ∀ listener, p.world.poll.1 = some (.ready true listener) →
      Q (.ok (.inr true) (polled p)))
    (hnothing : p.world.poll.1 = some .timedOut ∨ p.world.poll.1 = some (.ready false false) →
      Q (.ok (.inl ()) (polled p)))
    (hclient : p.world.poll.1 = some (.ready false true) →
      (server.acceptClient lib >>= fun _ => pure (.inl ())).Safe (polled p) Q) :
    (server.pollRound lib ()).Safe p Q := by
  unfold pollRound
  rw [HTTPWorker.safe_onWorld_bind]
  match hpoll : p.world.poll.1 with
  | none => exact (Prog.safe_ofFun ..).mpr (hidle hpoll)
  | some .failed => exact (Prog.safe_pure ..).mpr (hfailed hpoll)
  | some .timedOut => exact (Prog.safe_pure ..).mpr (hnothing (.inl hpoll))
  | some (.ready true listener) => exact (Prog.safe_pure ..).mpr (hshutdown listener hpoll)
  | some (.ready false false) => exact (Prog.safe_pure ..).mpr (hnothing (.inr hpoll))
  | some (.ready false true) => exact hclient hpoll

/-- A round that ends the loop. -/
theorem pollRound_done {result : Bool}
    (h : (server.pollRound lib ()).Returns p (.ok (.inr result) p')) :
    (result = true ∧ ∃ listener, p.world.poll.1 = some (.ready true listener)) ∨
      (result = false ∧ p.world.poll.1 = some .failed) := by
  have hround : (server.pollRound lib ()).Safe p fun o => ∀ result p', o = .ok (.inr result) p' →
      (result = true ∧ ∃ listener, p.world.poll.1 = some (.ready true listener)) ∨
        (result = false ∧ p.world.poll.1 = some .failed) := by
    apply safe_pollRound
    · rintro - result p' ⟨⟩
    · rintro hpoll result p' ⟨⟩
      exact .inr ⟨rfl, hpoll⟩
    · rintro listener hpoll result p' ⟨⟩
      exact .inl ⟨rfl, listener, hpoll⟩
    · rintro - result p' ⟨⟩
    · -- After a client the loop goes on.
      rintro - o ho result p' rfl
      obtain ⟨_, _, -, hnext⟩ | ⟨_, _, -, ⟨⟩⟩ := (Prog.returns_bind ..).mp ho
      cases (Prog.returns_pure ..).mp hnext
  exact hround _ h result p' rfl

/-- A round in which `poll` never returns. -/
theorem pollRound_idle (hpoll : p.world.poll.1 = none) :
    (server.pollRound lib ()).Returns p (.error .idle (polled p)) := by
  unfold pollRound
  rw [HTTPWorker.returns_onWorld_bind, hpoll]
  exact (Prog.returns_throw ..).mpr rfl

/-- A round in which a client comes. -/
theorem pollRound_client (hpoll : p.world.poll.1 = some (.ready false true))
    (r : Outcome Halt Process (Unit ⊕ Bool)) : (server.pollRound lib ()).Returns p r ↔
      (server.acceptClient lib >>= fun _ => pure (.inl ())).Returns (polled p) r := by
  unfold pollRound
  rw [HTTPWorker.returns_onWorld_bind, hpoll]
  exact Iff.rfl

end

/-! ### The rounds of a run -/

/-- The process when `init` has returned. -/
def initialised (server : HTTPServer) (p : Process) : Process :=
  { p with world := (server.init p.world).2.2 }

/-- A run from `p` gets to call `poll`, with the process as in `q`. -/
def ReachesPoll (lib : Library) (server : HTTPServer) (p q : Process) : Prop :=
  (server.init p.world).1 = true ∧
    Prog.Passes ((server.init p.world).2.1.pollRound lib) () (server.initialised p) () q

section

variable {lib : Library} {server server' : HTTPServer} {p p' q : Process} {result : Bool}

/-- A run returns when its loop does. -/
theorem returns_run : (server.run lib).Returns p (.ok (result, server') p') ↔
    server' = (server.init p.world).2.1 ∧
      (loop lib (server.init p.world).2.1 (server.init p.world).1).Returns (server.initialised p)
        (.ok result p') := by
  unfold run
  rw [HTTPWorker.returns_onWorld_bind, Prog.returns_bind]
  constructor
  · rintro (⟨result', p'', hloop, hpure⟩ | ⟨_, _, _, ⟨⟩⟩)
    cases (Prog.returns_pure ..).mp hpure
    exact ⟨rfl, hloop⟩
  · rintro ⟨rfl, hloop⟩
    exact .inl ⟨result, p', hloop, (Prog.returns_pure ..).mpr rfl⟩

/-- A run whose `init` has failed. -/
theorem returns_run_of_failed (hinit : (server.init p.world).1 = false) :
    (server.run lib).Returns p (.ok (result, server') p') ↔
      server' = (server.init p.world).2.1 ∧ result = exitFailure ∧ p' = server.initialised p := by
  rw [returns_run, hinit]
  show _ ∧ (pure exitFailure : ServerM Bool).Returns _ _ ↔ _
  rw [Prog.returns_pure, Outcome.ok.injEq]

/-- A run that comes to a last round returns. -/
theorem ReachesPoll.returns (hq : ReachesPoll lib server p q)
    (hround : ((server.init p.world).2.1.pollRound lib ()).Returns q (.ok (.inr result) p')) :
    (server.run lib).Returns p (.ok (result, (server.init p.world).2.1) p') := by
  apply returns_run.mpr
  rw [hq.1]
  exact ⟨rfl, (hq.2.returns_iff _).mpr (Prog.returns_loop_of_done hround)⟩

/-- A round that ends abruptly ends the run. -/
theorem ReachesPoll.halts {halt : Halt} (hq : ReachesPoll lib server p q)
    (hround : ((server.init p.world).2.1.pollRound lib ()).Returns q (.error halt p')) :
    (server.run lib).Returns p (.error halt p') := by
  have hloop : (loop lib (server.init p.world).2.1 (server.init p.world).1).Returns
      (server.initialised p) (.error halt p') := by
    rw [hq.1]
    exact (hq.2.returns_iff _).mpr (Prog.returns_loop_of_error hround)
  unfold run
  rw [HTTPWorker.returns_onWorld_bind]
  exact (Prog.returns_bind_of_error hloop _).mpr rfl

/-- The next round. -/
theorem ReachesPoll.next {q' : Process} (hq : ReachesPoll lib server p q)
    (hround : ((server.init p.world).2.1.pollRound lib ()).Returns q (.ok (.inl ()) q')) :
    ReachesPoll lib server p q' := ⟨hq.1, hq.2.next hround⟩

end

/-! ### What every worker keeps -/

section

variable {lib : Library} {I : Process → Prop} {Q : Halt → Process → Prop}

/-- What the world has no part in, and every worker keeps, the server keeps. -/
theorem triple_run (hworld : ∀ (p : Process) (w : World), I p → I { p with world := w })
    (hhalt : ∀ halt p, I p → Q halt p)
    (hworker : ∀ worker, Prog.Triple I (HTTPWorker.run lib worker) (fun _ => I) Q)
    (server : HTTPServer) : Prog.Triple I (server.run lib) (fun _ => I) Q := by
  have hstep : ∀ {α : Type} (f : World → α × World),
      Prog.Triple I (onWorld f) (fun _ => I) Q :=
    fun f => HTTPWorker.triple_onWorld fun p hp => hworld p _ hp
  have hpure : ∀ {α : Type} (a : α), Prog.Triple I (pure a : ServerM α) (fun _ => I) Q :=
    fun a => Prog.triple_pure (J := fun _ => I) a
  have hclient : ∀ server : HTTPServer,
      Prog.Triple I (server.acceptClient lib) (fun _ => I) Q := by
    intro server
    refine (hstep _).bind fun client => ?_
    cases client with
    | none => exact hpure ()
    | some sock => exact (hworker _).bind fun worker => hstep _
  -- What a round does besides the poll is done by the worker, or to the world.
  have hround : ∀ (server : HTTPServer),
      Prog.Triple I (server.pollRound lib ()) (fun _ => I) Q := by
    intro server p hp
    have hp' : I (polled p) := hworld p _ hp
    apply safe_pollRound
    · exact fun _ => hhalt .idle _ hp'
    · exact fun _ => hp'
    · exact fun _ _ => hp'
    · exact fun _ => hp'
    · exact fun _ => ((hclient server).bind fun _ => hpure _) _ hp'
  refine (hstep _).bind fun started => Prog.Triple.bind (J := fun _ => I) ?_ fun result => hpure _
  unfold loop
  split
  · refine Prog.triple_loop (I := fun _ => I) (fun _ => (hround started.2).mono ?_) ()
    rintro (_ | _) p hp <;> exact hp
  · exact hpure _

end

end HTTPServer

end Evaluation
