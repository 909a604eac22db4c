import Evaluation.CommandLine
import Evaluation.Leaks
import Evaluation.Service
import Evaluation.Shutdown

namespace Evaluation

open Lib HTTPServer

/-!
# The whole program

`main` reads its command line, sets up its signals, builds a server, runs and destroys it.

* `MainEnds` — the three ways in which it returns, with its exit code and what it has done;
* `main_ends` — whenever it returns it does so in one of them, and has closed all that it has
  opened but the shutdown pipe, which is closed at exit.
-/

/-- The process when the shutdown pipe is open. -/
def Process.withPipe (p : Process) (m : MainState) : Process :=
  { p with world := p.world.withPipe m }

/-- **How `main` returns**, and the process as it is then. -/
inductive MainEnds (lib : Library) (os : SignalAnswers) (argv : List Bytes) (p : Process) :
    ℕ → Process → Prop where
  /-- The command line or the signals leave no server to be built. -/
  | notBuilt (hnone : (start os argv).1 = none) :
    MainEnds lib os argv p 1 (p.withPipe (prepare os argv).2)
  /-- The server does not come up; nobody has been served, and the exit code is that of a
      success. -/
  | notStarted {server : HTTPServer} {p' : Process} (hserver : (start os argv).1 = some server)
    (hinit : (server.init (p.world.withPipe (prepare os argv).2)).1 = false)
    (htrace : p'.trace = p.trace) (hid : p'.queryID = p.queryID) : MainEnds lib os argv p 0 p'
  /-- The server has taken in some clients, and given each the reply of the machine, before `poll`
      has failed or the shutdown pipe was readable. -/
  | served {server : HTTPServer} {Ss : List Bytes} {q p' : Process} (shutdown : Bool)
    (hserver : (start os argv).1 = some server)
    (hserves : Serves lib server (p.withPipe (prepare os argv).2) Ss q)
    (hpoll : (shutdown = true ∧ ∃ listener, q.world.poll.1 = some (.ready true listener)) ∨
      (shutdown = false ∧ q.world.poll.1 = some .failed))
    (hgiven : (∀ S ∈ Ss, Readable S) → ∃ replies,
      (service lib.json).run p.queryID Ss = .ok (replies, p'.queryID) ∧ AllGiven p p' replies) :
    MainEnds lib os argv p (exitCode shutdown) p'

/-- The ends of the shutdown pipe, if it is open. -/
def MainState.pipeFds (m : MainState) : Set Fd :=
  {fd | ∃ fds, m.shutdownPipe = some fds ∧ (fd = fds.1 ∨ fd = fds.2)}

/-- The system gives two ends that are not in use. -/
def SignalAnswers.FreshIn (os : SignalAnswers) (w : World) : Prop :=
  ∀ fds, os.pipe = .ok fds → fds.1 ∉ w.openFds ∧ fds.2 ∉ w.openFds ∧ fds.1 ≠ fds.2

/-! ### The pipe -/

section

variable {os : SignalAnswers} {argv : List Bytes} {w w' : World}

theorem union_pipeFds_of_none {m : MainState} (h : m.shutdownPipe = none) (fds : Set Fd) :
    fds ∪ m.pipeFds = fds := by
  unfold MainState.pipeFds
  rw [h]
  simp

theorem union_pipeFds_of_some {m : MainState} {ends : Fd × Fd} (h : m.shutdownPipe = some ends)
    (fds : Set Fd) : fds ∪ m.pipeFds = insert ends.2 (insert ends.1 fds) := by
  unfold MainState.pipeFds
  ext fd
  simp only [h, Set.mem_insert_iff, Set.mem_union, Set.mem_ofPred_eq, Option.some.injEq,
    exists_eq_left']
  tauto

/-- `pipe` opens two descriptors. -/
theorem World.openFds_pipe (w : World) (fds : Fd × Fd) :
    (w.pipe fds).openFds = insert fds.2 (insert fds.1 w.openFds) := by
  unfold World.pipe
  rw [World.openFds_update_some (w := (w.set fds.1 (some (.fresh 0 .absent))).book _) rfl]
  congr 1
  exact World.openFds_update_some rfl

/-- The ends of the pipe are open besides. -/
theorem openFds_withPipe (w : World) (m : MainState) :
    (w.withPipe m).openFds = w.openFds ∪ m.pipeFds := by
  unfold World.withPipe
  cases hpipe : m.shutdownPipe with
  | none => exact (union_pipeFds_of_none hpipe _).symm
  | some ends => exact (w.openFds_pipe ends).trans (union_pipeFds_of_some hpipe _).symm

/-- No answer is used up. -/
theorem answers_withPipe (w : World) (m : MainState) : (w.withPipe m).answers = w.answers := by
  unfold World.withPipe
  split <;> rfl

/-- **At exit** the pipe is closed, if that could be arranged. -/
theorem openFds_atExit (hpipe : os.FreshIn w) (hatexit : os.atexit = true)
    (hclose : w'.CanClose) (hopen : w'.openFds = w.openFds ∪ (prepare os argv).2.pipeFds) :
    (atExit os (prepare os argv).2 w').2.openFds = w.openFds := by
  unfold atExit
  obtain hnone | ⟨fds, hfds, hsome, hcloses⟩ := prepare_pipe os argv
  · rw [hnone]
    exact hopen.trans (union_pipeFds_of_none hnone _)
  · obtain ⟨hfirst, hsecond, hne⟩ := hpipe fds hfds
    have hends := hopen.trans (union_pipeFds_of_some hsome w.openFds)
    rw [hsome]
    dsimp only
    rw [if_pos (hcloses hatexit)]
    -- One end after the other.
    obtain ⟨-, hclosed⟩ := @World.closes_close w' fds.1 (by rw [hends]; simp) hclose
    have hstill : fds.2 ∈ (w'.close fds.1).2.openFds := by
      rw [hclosed.openFds, hends]
      simp [hne.symm]
    obtain ⟨-, hclosed'⟩ := World.closes_close hstill (hclosed.toBetween.canClose hclose)
    show ((w'.close fds.1).2.close fds.2).2.openFds = w.openFds
    rw [hclosed'.openFds, hclosed.openFds, hends]
    ext fd
    simp only [Set.mem_sdiff, Set.mem_insert_iff, Set.mem_singleton_iff]
    constructor
    · rintro ⟨⟨rfl | rfl | hmem, hnot⟩, hnot'⟩
      · exact absurd rfl hnot'
      · exact absurd rfl hnot
      · exact hmem
    · intro hmem
      refine ⟨⟨.inr (.inr hmem), ?_⟩, ?_⟩
      · rintro rfl
        exact hfirst hmem
      · rintro rfl
        exact hsecond hmem

end

section

variable {lib : Library} {server server' : HTTPServer} {p p' : Process} {result : Bool}

/-- A run that returns behind a good `init` does so from a last call of `poll`, which changes
    nothing but the world. -/
theorem run_lastPoll (hinit : (server.init p.world).1 = true)
    (h : (server.run lib).Returns p (.ok (result, server') p')) :
    ∃ q, ReachesPoll lib server p q ∧ p' = polled q ∧
      ((result = true ∧ ∃ listener, q.world.poll.1 = some (.ready true listener)) ∨
        (result = false ∧ q.world.poll.1 = some .failed)) := by
  obtain ⟨-, hloop⟩ := returns_run.mp h
  rw [hinit] at hloop
  obtain ⟨⟨⟩, q, hpasses, hlast⟩ := Prog.Returns.last_round hloop
  have hq : ReachesPoll lib server p q := ⟨hinit, hpasses⟩
  have hdone := pollRound_done hlast
  refine ⟨q, hq, ?_, hdone⟩
  -- The run is the one that ends with this call.
  rcases hdone with ⟨rfl, listener, hpoll⟩ | ⟨rfl, hpoll⟩
  · exact (Outcome.ok.inj (h.unique (returns_of_shutdown hq hpoll))).2
  · exact (Outcome.ok.inj (h.unique (returns_of_failed hq hpoll))).2

end

/-- The server that `main` builds has a socket that is closed. -/
theorem eq_of_start {os : SignalAnswers} {argv : List Bytes} {server : HTTPServer}
    (h : (start os argv).1 = some server) :
    ({ listenerPort := server.listenerPort, backlogSize := server.backlogSize } : HTTPServer)
      = server := by
  unfold start at h
  split at h
  · cases h
  · cases h
    rfl

/-- **The whole program.**  Whenever `main` returns, it has built no server, or one that did not
    come up, or one that has worked as the machine until its last call of `poll`; of what it has
    opened the shutdown pipe alone is left, and what runs at exit closes it, if that could be
    arranged. -/
theorem main_ends {lib : Library} {os : SignalAnswers} {argv : List Bytes} {p p' : Process}
    {code : ℕ} (hclose : p.world.CanClose) (hpipe : os.FreshIn p.world)
    (h : (main lib os argv).Returns p (.ok code p')) :
    MainEnds lib os argv p code p' ∧
      p'.world.openFds = p.world.openFds ∪ (prepare os argv).2.pipeFds ∧
      (os.atexit = true →
        (atExit os (prepare os argv).2 p'.world).2.openFds = p.world.openFds) := by
  unfold main at h
  have hmain := (HTTPWorker.returns_onWorld_bind ..).mp h
  have hpiped := openFds_withPipe p.world (prepare os argv).2
  have hcanClose : (p.world.withPipe (prepare os argv).2).CanClose := by
    unfold World.CanClose
    rw [answers_withPipe]
    exact hclose
  cases hserver : (start os argv).1 with
  | none =>
    rw [hserver] at hmain
    cases (Prog.returns_pure ..).mp hmain
    exact ⟨.notBuilt hserver, hpiped, fun hatexit =>
      openFds_atExit hpipe hatexit hcanClose hpiped⟩
  | some server =>
    rw [hserver] at hmain
    have hsettled := (settled_serve hcanClose hmain).1
    have hopen := hsettled.openFds.trans hpiped
    refine ⟨?_, hopen, fun hatexit =>
      openFds_atExit hpipe hatexit (hsettled.canClose hcanClose) hopen⟩
    obtain ⟨⟨result, server'⟩, p'', hrun, hend⟩ | ⟨_, _, _, ⟨⟩⟩ :=
      (Prog.returns_bind ..).mp hmain
    cases (Prog.returns_ofFun ..).mp hend
    rw [eq_of_start hserver] at hrun
    cases hinit : (server.init (p.world.withPipe (prepare os argv).2)).1 with
    | false =>
      obtain ⟨-, rfl, rfl⟩ := (returns_run_of_failed hinit).mp hrun
      exact .notStarted hserver hinit rfl rfl
    | true =>
      obtain ⟨q, hq, rfl, hpoll⟩ := run_lastPoll hinit hrun
      obtain ⟨Ss, hserves⟩ := hq.serves
      exact .served result hserver hserves hpoll fun hread => hserves.refines hread

/-- With no options the server gets its defaults; it serves a client that clicks a link, and is shut
    down. -/
theorem main_ends_clicked : ∃ p', p'.trace.length = 3 ∧
    MainEnds secondClicked answersWell (argv (bytes "evaluation") []) clickedThenShutDown 0 p' ∧
      (atExit answersWell (prepare answersWell (argv (bytes "evaluation") [])).2
        p'.world).2.openFds = clickedThenShutDown.world.openFds := by
  have hserver := @start_of_accepted [] (by simp) answersWell (bytes "evaluation")
  have hprepared : (prepare answersWell (argv (bytes "evaluation") [])).2.shutdownPipe
      = some (5, 6) := by
    unfold prepare argv
    rw [List.tail_cons, readOptions_of_none rfl]
    rfl
  have hserve : ((serve secondClicked 8080 10).run 400 { clickedThenShutDown with
      world := clickedThenShutDown.world.pipe (5, 6) }).any (fun o => match o with
        | .ok code p' => code == 0 && p'.trace.length == 3
        | _ => false) = true := by decide +kernel
  obtain ⟨⟨code, p'⟩ | _, hreturns, hend⟩ := Prog.ends_of_run hserve
  · obtain ⟨hcode, htrace⟩ := Bool.and_eq_true_iff.mp hend
    obtain rfl := eq_of_beq hcode
    have hmain : (main secondClicked answersWell (argv (bytes "evaluation") [])).Returns
        clickedThenShutDown (.ok 0 p') := by
      unfold main
      rw [HTTPWorker.returns_onWorld_bind, hserver]
      unfold World.withPipe
      rw [hprepared]
      exact hreturns
    have hclose : clickedThenShutDown.world.CanClose := by
      unfold World.CanClose
      decide
    have hpipe : answersWell.FreshIn clickedThenShutDown.world := by
      rintro _ ⟨⟩
      exact ⟨nofun, nofun, by decide⟩
    obtain ⟨hends, -, hexit⟩ := main_ends hclose hpipe hmain
    exact ⟨p', eq_of_beq htrace, hends, hexit rfl⟩
  · cases hend

end Evaluation
