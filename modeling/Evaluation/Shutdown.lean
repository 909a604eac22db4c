import Evaluation.Descriptors
import Evaluation.Survival

namespace Evaluation

open Lib

/-!
# How `HTTPServer::run` ends

`HTTPServer::run` returns `true` when the shutdown pipe is readable and `false` when `poll` fails;
`main` makes its exit code of that.

* `run_reports_iff` — the result says how the run ended, provided that `init` succeeded: when it
  fails, `run` returns `EXIT_FAILURE`, which is `true`;
* `run_sigint_iff` — SIGINT leads to `true` unless it interrupts a `poll`.
-/

namespace HTTPServer

section

variable {lib : Library} {server server' : HTTPServer} {p p' q : Process} {result : Bool}

/-- The loop was left because the shutdown pipe was readable. -/
def LeftByShutdown (lib : Library) (server : HTTPServer) (p : Process) : Prop :=
  ∃ q listener, ReachesPoll lib server p q ∧ q.world.poll.1 = some (.ready true listener)

/-- A call of `poll` has failed. -/
def PollFailed (lib : Library) (server : HTTPServer) (p : Process) : Prop :=
  ∃ q, ReachesPoll lib server p q ∧ q.world.poll.1 = some .failed

/-- The result of `run`, and the exit code that `main` makes of it, say how the run ended. -/
def Reports (lib : Library) (server : HTTPServer) (p : Process) : Prop :=
  ∀ result server' p', (server.run lib).Returns p (.ok (result, server') p') →
    (result = true ↔ LeftByShutdown lib server p) ∧
    (result = false ↔ (server.init p.world).1 = false ∨ PollFailed lib server p) ∧
    (exitCode result = 0 → LeftByShutdown lib server p)

/-- Back at `poll` with the pipe readable, `run` returns `true`. -/
theorem returns_of_shutdown {listener : Bool} (hq : ReachesPoll lib server p q)
    (hpoll : q.world.poll.1 = some (.ready true listener)) :
    (server.run lib).Returns p
      (.ok (true, (server.init p.world).2.1) { q with world := q.world.poll.2 }) := by
  apply hq.returns
  -- The shutdown pipe is looked at first, so the round ends without a client whether one waits or
  -- not.
  unfold pollRound
  rw [HTTPWorker.returns_onWorld_bind, hpoll]
  exact (Prog.returns_pure ..).mpr rfl

/-- Back at `poll` with `poll` failing, `run` returns `false`. -/
theorem returns_of_failed (hq : ReachesPoll lib server p q)
    (hpoll : q.world.poll.1 = some .failed) :
    (server.run lib).Returns p
      (.ok (false, (server.init p.world).2.1) { q with world := q.world.poll.2 }) := by
  apply hq.returns
  unfold pollRound
  rw [HTTPWorker.returns_onWorld_bind, hpoll]
  exact (Prog.returns_pure ..).mpr rfl

/-- A run that returns behind a good `init` has left its loop in one of two ways. -/
theorem run_cases (hinit : (server.init p.world).1 = true)
    (h : (server.run lib).Returns p (.ok (result, server') p')) :
    (result = true ∧ LeftByShutdown lib server p) ∨ (result = false ∧ PollFailed lib server p) := by
  have hloop := (returns_run.mp h).2
  rw [hinit] at hloop
  obtain ⟨_, q, hpasses, hlast⟩ := Prog.Returns.last_round hloop
  have hq : ReachesPoll lib server p q := ⟨hinit, hpasses⟩
  obtain ⟨hresult, listener, hpoll⟩ | ⟨hresult, hpoll⟩ := pollRound_done hlast
  · exact .inl ⟨hresult, q, listener, hq, hpoll⟩
  · exact .inr ⟨hresult, q, hq, hpoll⟩

/-- The two ways exclude each other. -/
theorem not_pollFailed (h : LeftByShutdown lib server p) : ¬ PollFailed lib server p := by
  rintro ⟨q', hq', hpoll'⟩
  obtain ⟨q, listener, hq, hpoll⟩ := h
  cases (returns_of_shutdown hq hpoll).unique (returns_of_failed hq' hpoll')

/-- **The result** of `run` says how the run ended if and only if `init` has succeeded, or else
    the run did not even start. -/
theorem run_reports_iff (lib : Library) (server : HTTPServer) (p : Process) :
    Reports lib server p ↔ (server.init p.world).1 = true := by
  constructor
  · intro h
    by_contra hinit
    have hfailed : (server.init p.world).1 = false := Bool.not_eq_true _ |>.mp hinit
    have hreports := h _ _ _ ((returns_run_of_failed hfailed).mpr ⟨rfl, rfl, rfl⟩)
    obtain ⟨q, listener, ⟨hstarted, -⟩, -⟩ := hreports.1.mp rfl
    exact hinit hstarted
  · intro hinit result server' p' h
    rw [hinit]
    obtain ⟨rfl, hshutdown⟩ | ⟨rfl, hfailed⟩ := run_cases hinit h
    · have hnot := not_pollFailed hshutdown
      simp [hshutdown, hnot]
    · have hnot : ¬ LeftByShutdown lib server p := fun hleft => not_pollFailed hleft hfailed
      simp [hnot, hfailed, exitCode]

/-- The server of `server8080`, for which `::socket` fails. -/
theorem run_reports_counterexample :
    (∃ server' p', (server8080.run Library.plain).Returns
      ⟨⟨fun _ => none, ∅, {}, []⟩, 0, []⟩ (.ok (true, server') p')) ∧ exitCode true = 0 ∧
    ¬ Reports Library.plain server8080 ⟨⟨fun _ => none, ∅, {}, []⟩, 0, []⟩ := by
  have hreturns := (@returns_run_of_failed Library.plain server8080 _
    ⟨⟨fun _ => none, ∅, {}, []⟩, 0, []⟩ _ _ rfl).mpr ⟨rfl, rfl, rfl⟩
  refine ⟨⟨_, _, hreturns⟩, rfl, ?_⟩
  intro h
  obtain ⟨q, listener, ⟨⟨⟩, -⟩, -⟩ := (h _ _ _ hreturns).1.mp rfl

end

/-! ### SIGINT -/

/-- Where SIGINT finds the process: behind the last call of `poll` (serving a client, perhaps), or
    blocked in `poll`. -/
inductive Moment where
  | beforePoll
  | inPoll
  deriving DecidableEq, Repr

/-- What comes to pass around one call of `poll`: a SIGINT, if any, and what is reported of the
    listener, if `poll` does not time out. -/
structure Round where
  sigint : Option Moment := none
  listener : Option Bool := none
  deriving DecidableEq, Repr

/-- What `poll` returns, and whether the pipe is readable afterwards.  The handler has written to
    the pipe when the signal is over; a `poll` that it interrupts fails nevertheless, with `EINTR`,
    and every later one finds the pipe readable. -/
def Round.poll (round : Round) (readable : Bool) : PollResult × Bool :=
  if readable ∨ round.sigint = some .beforePoll then
    (.ready true (round.listener.getD false), true)
  else if round.sigint = some .inPoll then (.failed, true)
  else match round.listener with
    | none => (.timedOut, false)
    | some listener => (.ready false listener, false)

/-- What `poll` returns, call by call. -/
def pollResults : List Round → Bool → List PollResult
  | [], _ => []
  | round :: rounds, readable =>
    (round.poll readable).1 :: pollResults rounds (round.poll readable).2

/-- Where the first SIGINT finds the process. -/
def firstSigint (rounds : List Round) : Option Moment := rounds.findSome? Round.sigint

/-- How a result of `poll` ends the loop, if it does. -/
def endsLoop : PollResult → Option Bool
  | .failed => some false
  | .ready true _ => some true
  | _ => none

/-- The loop ends as the place of the first SIGINT says. -/
theorem endsLoop_pollResults (rounds : List Round) :
    (pollResults rounds false).findSome? endsLoop
      = (firstSigint rounds).map fun moment => decide (moment = .beforePoll) := by
  induction rounds with
  | nil => rfl
  | cons round rounds ih =>
    obtain ⟨sigint, listener⟩ := round
    unfold pollResults firstSigint
    rw [List.findSome?_cons, List.findSome?_cons]
    rcases sigint with _ | _ | _
    · cases listener with
      | none => exact ih
      | some listener => exact ih
    · rfl
    · rfl

section

variable {lib : Library} {server : HTTPServer} {p : Process}

/-- The loop ends, or waits at `poll`, as what `poll` reports says: nobody else has a part in
    that. -/
theorem loop_ending (server : HTTPServer) (ending : Option Bool) :
    Prog.Triple (fun p : Process => p.world.answers.poll.findSome? endsLoop = ending)
      (Prog.loop (server.pollRound lib) ()) (fun result _ => ending = some result)
      fun halt _ => halt = .idle → ending = none := by
  refine Prog.triple_loop
    (I := fun _ (p : Process) => p.world.answers.poll.findSome? endsLoop = ending) ?_ ()
  intro _ p hp
  cases hpoll : p.world.answers.poll with
  | nil =>
    rw [hpoll] at hp
    have hnone : p.world.poll.1 = none := by
      show p.world.answers.poll.head? = none
      rw [hpoll]
      rfl
    apply safe_pollRound
    · exact fun _ _ => hp.symm
    all_goals simp [hnone]
  | cons result rest =>
    obtain ⟨hresult, hrest⟩ := poll_next hpoll
    rw [hpoll, List.findSome?_cons] at hp
    -- What is left to report when the loop goes on.
    have hnext : endsLoop result = none →
        (polled p).world.answers.poll.findSome? endsLoop = ending := by
      intro hgoes
      rw [hgoes] at hp
      show p.world.poll.2.answers.poll.findSome? endsLoop = ending
      rw [hrest]
      exact hp
    apply safe_pollRound
    · rw [hresult]
      exact nofun
    · rw [hresult]
      rintro ⟨⟩
      exact hp.symm
    · rw [hresult]
      rintro listener ⟨⟩
      exact hp.symm
    · rw [hresult]
      intro hnothing
      apply hnext
      rcases hnothing with hnothing | hnothing <;> rw [Option.some.inj hnothing] <;> rfl
    · rw [hresult]
      rintro ⟨⟩
      have hbetween : ∀ w w' : World, w.answers.poll.findSome? endsLoop = ending →
          w.Between w' → w'.answers.poll.findSome? endsLoop = ending := by
        intro w w' hw hw'
        rw [hw'.poll]
        exact hw
      refine (leads_acceptClient hbetween server _ (hnext rfl)).bind ?_ ?_
      · exact fun _ p' hp' => (Prog.safe_pure ..).mpr hp'
      · exact fun halt p' hhalt hidle => absurd hidle hhalt

/-- So does a run whose `init` succeeds. -/
theorem run_ending (hinit : (server.init p.world).1 = true) :
    (server.run lib).Safe p (Prog.Within
      (fun ended _ => p.world.answers.poll.findSome? endsLoop = some ended.1)
      fun halt _ => halt = .idle → p.world.answers.poll.findSome? endsLoop = none) := by
  have hpoll : (server.initialised p).world.answers.poll.findSome? endsLoop
      = p.world.answers.poll.findSome? endsLoop := by
    show (server.init p.world).2.2.answers.poll.findSome? endsLoop = _
    rw [(server.between_init p.world).poll]
  unfold run
  rw [HTTPWorker.safe_onWorld_bind, hinit]
  refine (loop_ending (server.init p.world).2.1 _ (server.initialised p) hpoll).bind ?_ ?_
  · exact fun result p' hresult => (Prog.safe_pure ..).mpr hresult
  · exact fun halt p' hhalt => hhalt

/-- **SIGINT** makes `run` return `true` if and only if the first one does not find the process
    blocked in `poll`: whatever the clients do, if `run` returns, and in any case if they send what
    is harmless and no `::send` is fatal. -/
theorem run_sigint_iff (hdoc : lib.json.Documented) {rounds : List Round}
    (hinit : (server.init p.world).1 = true)
    (hpoll : p.world.answers.poll = pollResults rounds false)
    (hsigint : ∃ round ∈ rounds, round.sigint ≠ none) :
    (∀ result server' p', (server.run lib).Returns p (.ok (result, server') p') →
      (result = true ↔ firstSigint rounds = some .beforePoll) ∧
      (exitCode result = 0 ↔ firstSigint rounds = some .beforePoll)) ∧
    (p.world.ClientsHarmless lib → p.world.Calm →
      (((server.run lib).Ends p fun o => ∃ server' p', o = .ok (true, server') p') ↔
        firstSigint rounds = some .beforePoll)) := by
  obtain ⟨moment, hmoment⟩ : ∃ moment, firstSigint rounds = some moment := by
    obtain ⟨round, hmem, hround⟩ := hsigint
    obtain ⟨moment, hmoment⟩ := Option.ne_none_iff_exists'.mp hround
    apply Option.isSome_iff_exists.mp
    exact List.findSome?_isSome_iff.mpr ⟨round, hmem, by rw [hmoment]; rfl⟩
  have hending : p.world.answers.poll.findSome? endsLoop
      = some (decide (moment = .beforePoll)) := by
    rw [hpoll, endsLoop_pollResults, hmoment]
    rfl
  -- A result of `run` is the one that the place of the signal calls for.
  have hresult : ∀ result server' p', (server.run lib).Returns p (.ok (result, server') p') →
      result = decide (moment = .beforePoll) := by
    intro result server' p' h
    have hreturned : p.world.answers.poll.findSome? endsLoop = some result := run_ending hinit _ h
    rw [hending] at hreturned
    exact (Option.some.inj hreturned).symm
  rw [hmoment, Option.some.injEq]
  refine ⟨?_, ?_⟩
  · intro result server' p' h
    rw [hresult result server' p' h]
    cases moment with
    | beforePoll => simp [exitCode]
    | inPoll => simp [exitCode]
  · intro hharmless hcalm
    obtain ⟨o, ho, hpolled⟩ := run_atPoll hdoc server hharmless hcalm
    constructor
    · rintro ⟨_, h, server', p', rfl⟩
      exact of_decide_eq_true (hresult true server' p' h).symm
    · rintro rfl
      refine ⟨o, ho, ?_⟩
      cases o with
      | ok ended p' =>
        obtain ⟨result, server'⟩ := ended
        have htrue : result = true := hresult result server' p' ho
        exact ⟨server', p', by rw [htrue]⟩
      | error halt p' =>
        -- It cannot be waiting at `poll`: the pipe is readable.
        have hnone := run_ending hinit _ ho hpolled.1
        cases hending.symm.trans hnone

end

/-- A process that gets one client, and what `rounds` says. -/
def disturbed (client : Peer) (rounds : List Round) : Process where
  world :=
    { descriptors := fun _ => none
      portsInUse := ∅
      answers :=
        { socket := [some 3]
          bind := [some 8080]
          accept := [some (4, client)]
          poll := pollResults rounds false } }
  queryID := 0
  trace := []

/-- The client comes when a `poll` has timed out, and the signal while it is served. -/
def duringService : List Round :=
  [{}, { listener := some true }, { sigint := some .beforePoll }]

/-- The client takes the reply byte after byte; the server serves it to the end, and `run` returns
    `true`. -/
theorem run_sigint_iff_served :
    (server8080.run Library.plain).Ends
      (disturbed (feedbackClient (.const (.sent 1))) duringService)
      fun o => ∃ server' p', o = .ok (true, server') p' := by
  have hsigint : ∃ round ∈ duringService, round.sigint ≠ none :=
    ⟨{ sigint := some .beforePoll }, by decide, by decide⟩
  let p := disturbed (feedbackClient (.const (.sent 1))) duringService
  have hharmless : p.world.ClientsHarmless Library.plain := by
    intro fd client hmem
    cases List.mem_singleton.mp hmem
    exact harmless_feedbackClient _
  have hcalm : ∀ result, result ≠ .sent 1 → ¬ p.world.Pending result := by
    rintro result hne (⟨fd, d, ⟨⟩, -⟩ | ⟨fd, peer, hmem, i, hi⟩ | ⟨port, peer, ⟨⟩, -⟩)
    cases List.mem_singleton.mp hmem
    exact hne hi
  exact ((@run_sigint_iff Library.plain server8080 p Nlohmann.plain_documented duringService rfl
    rfl hsigint).2 hharmless ⟨hcalm .reset nofun, hcalm .blocked nofun⟩).mpr rfl

/-- The signal finds the process blocked in `poll`, which fails with `EINTR`: `run` returns
    `false`, and `main` exits with failure. -/
theorem run_sigint_counterexample :
    let p := disturbed (feedbackClient (.const (.sent 1))) [{ sigint := some .inPoll }]
    (server8080.init p.world).1 = true ∧
    (∃ server' p', (server8080.run Library.plain).Returns p (.ok (false, server') p')) ∧
    exitCode false = 1 ∧
    ¬ (server8080.run Library.plain).Ends p fun o => ∃ server' p', o = .ok (true, server') p' := by
  intro p
  have hq : ReachesPoll Library.plain server8080 p (server8080.initialised p) := ⟨rfl, .refl⟩
  have hreturns := returns_of_failed hq rfl
  refine ⟨rfl, ⟨_, _, hreturns⟩, rfl, ?_⟩
  rintro ⟨o, ho, server', p', rfl⟩
  cases hreturns.unique ho

end HTTPServer

end Evaluation
