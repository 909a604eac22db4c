import Evaluation.CommandLine
import Evaluation.LogSignals

namespace Evaluation

open Lib Logging

/-!
# What is in the logs

`main` opens `log/info.log` and `log/trace.log` before it reads the command line, and the console
with the first `-c`; after that it only logs, and so does the server.

* `Plain` — a call that opens a sink or logs; `start_calls` — `main` makes no other;
* `logged_of_opened` — from its opening on, a sink has the messages that its level lets through;
* `MainLogs` — what the three sinks hold;
* `main_logs` — so they do when a server has been built, whatever signals have come;
* `start_logsWhy` — without a server both files end with `main`'s reason when it returns, and only
  what is logged at exit comes behind it.
-/

/-- The message that a `LOG` hands to the workers. -/
def LoggerCall.message : LoggerCall → Option (LogLevel × Bytes)
  | .LOG level file line function text =>
    some (level, Logger.message level file line function text)
  | _ => none

/-- The messages of some calls. -/
def messages (calls : List LoggerCall) : List (LogLevel × Bytes) :=
  calls.filterMap LoggerCall.message

/-- A level lets a message through. -/
def LogLevel.lets (inForce : LogLevel) (m : LogLevel × Bytes) : Bool :=
  decide (m.1.toNat ≤ inForce.toNat)

/-- A call that opens a sink, or a `LOG`. -/
def LoggerCall.Plain : LoggerCall → Prop
  | .addFile _ _ | .addConsole _ | .LOG _ _ _ _ _ => True
  | _ => False

/-- What is in a log: entries with these messages. -/
def Holds (g₀ g : Logging) (name : Bytes) (msgs : List (LogLevel × Bytes)) : Prop :=
  ∃ entries text, g.outputs name = g₀.outputs name ++ text ∧ Written g₀.clock name entries text ∧
    entries.filterMap LogEntry.logged = msgs

/-! ### A sink from its opening on -/

section

variable {name : Bytes} {level : LogLevel}

/-- The messages of two sequences of calls. -/
theorem messages_append (calls calls' : List LoggerCall) :
    messages (calls ++ calls') = messages calls ++ messages calls' := List.filterMap_append

/-- The messages that a level lets through, with one call more. -/
theorem filter_messages_concat (calls : List LoggerCall) (call : LoggerCall) :
    (messages (calls ++ [call])).filter level.lets
      = (messages calls).filter level.lets ++ (messages [call]).filter level.lets := by
  rw [messages_append, List.filter_append]

/-- A plain call leaves an open sink its level, and adds its message if the level lets it
    through. -/
theorem logged_plain {s : Sink} {call : LoggerCall} (hs : s.level = some level)
    (hcall : call.Plain) : (s.step name call.toWorkers).level = some level ∧
      (s.step name call.toWorkers).entries.filterMap LogEntry.logged
        = s.entries.filterMap LogEntry.logged ++ (messages [call]).filter level.lets := by
  -- Adding a sink logs no message, and where the sink is there already it does nothing at all.
  have hadd : ∀ name' level', call.toWorkers = .addWorker name' level' → messages [call] = [] →
      (s.step name call.toWorkers).level = some level ∧
        (s.step name call.toWorkers).entries.filterMap LogEntry.logged
          = s.entries.filterMap LogEntry.logged ++ (messages [call]).filter level.lets := by
    intro name' level' hadd hnone
    rw [hadd, hnone, Sink.step]
    split
    · rw [hs]
      exact ⟨rfl, by simp [LogEntry.logged]⟩
    · exact ⟨hs, by simp⟩
  cases call with
  | addFile path level' => exact hadd path level' rfl rfl
  | addConsole level' => exact hadd [] level' rfl rfl
  | LOG level' file line function text =>
    have hmsg : messages [.LOG level' file line function text]
        = [(level', Logger.message level' file line function text)] := rfl
    have hlog : (LoggerCall.LOG level' file line function text).toWorkers
        = .log level' (Logger.message level' file line function text) := rfl
    rw [hmsg, hlog]
    by_cases hle : level'.toNat ≤ level.toNat
    · rw [Sink.step_log hs hle]
      exact ⟨hs, by simp [LogEntry.logged, LogLevel.lets, hle]⟩
    · -- The level keeps the message out.
      have hsilent : ∀ inForce, s.level = some inForce → inForce.toNat < level'.toNat := by
        rintro inForce h
        cases hs.symm.trans h
        exact Nat.not_le.mp hle
      rw [Sink.step_log_silent hsilent]
      exact ⟨hs, by simp [LogLevel.lets, hle]⟩
  | _ => cases hcall

/-- Before it is opened there is nothing in a sink. -/
theorem sinkAfter_unopened {pre : List LoggerCall}
    (hpre : ∀ c ∈ pre, c.Plain ∧ c.toWorkers.sink ≠ some name) : sinkAfter name pre = {} := by
  -- By the last call: it is a LOG, which a sink that is not there ignores, or opens another one.
  induction pre using List.reverseRecOn with
  | nil => rfl
  | append_singleton pre call ih =>
    have hcall := hpre call (by simp)
    rw [sinkAfter_concat, ih fun c hc => hpre c (List.mem_append_left _ hc)]
    cases hsink : call.toWorkers.sink with
    | some other =>
      refine Sink.step_of_ne hsink ?_
      rintro rfl
      exact hcall.2 hsink
    | none =>
      cases hlog : call.toWorkers with
      | log level msg => exact Sink.step_log_silent (by simp) msg
      | _ =>
        rw [hlog] at hsink
        cases hsink

/-- **From its opening on** a sink has the messages that its level lets through. -/
theorem logged_of_opened {pre post : List LoggerCall} {call : LoggerCall}
    (hpre : ∀ c ∈ pre, c.Plain ∧ c.toWorkers.sink ≠ some name)
    (hcall : call.toWorkers = .addWorker name level) (hpost : ∀ c ∈ post, c.Plain) :
    (sinkAfter name (pre ++ call :: post)).level = some level ∧
      (sinkAfter name (pre ++ call :: post)).entries.filterMap LogEntry.logged
        = (messages post).filter level.lets := by
  induction post using List.reverseRecOn with
  | nil =>
    rw [sinkAfter_concat, sinkAfter_unopened hpre, hcall, Sink.step, if_pos rfl]
    exact ⟨rfl, rfl⟩
  | append_singleton post c ih =>
    obtain ⟨hlevel, hlogged⟩ := ih fun c' hc' => hpost c' (List.mem_append_left _ hc')
    have hsplit : pre ++ call :: (post ++ [c]) = (pre ++ call :: post) ++ [c] := by simp
    obtain ⟨hlevel', hlogged'⟩ := @logged_plain name level _ c hlevel (hpost c (by simp))
    rw [hsplit, sinkAfter_concat]
    refine ⟨hlevel', ?_⟩
    rw [hlogged', hlogged, filter_messages_concat]

end

/-! ### The calls that `main` makes -/

/-- A `LOG`, or the call for `-c`. -/
def LoggerCall.OfMain : LoggerCall → Prop
  | .LOG _ _ _ _ _ => True
  | .addConsole level => level = .TRACE
  | _ => False

/-- A call of `main` changes no level and takes no sink away. -/
theorem LoggerCall.OfMain.plain {call : LoggerCall} (h : call.OfMain) : call.Plain := by
  cases call with
  | addConsole level => trivial
  | LOG level file line function text => trivial
  | _ => cases h

/-- It opens no file. -/
theorem LoggerCall.OfMain.sink_ne {call : LoggerCall} (h : call.OfMain) {name : Bytes}
    (hname : name ≠ []) : call.toWorkers.sink ≠ some name := by
  cases call with
  | addConsole level => exact fun hsink => hname (Option.some.inj hsink).symm
  | LOG level file line function text => exact nofun
  | _ => cases h

/-- `main` has gone on, and made only such calls. -/
def MainState.Extends (m m' : MainState) : Prop :=
  ∃ new, (∀ c ∈ new, LoggerCall.OfMain c) ∧ m'.calls = m.calls ++ new

namespace MainState.Extends

theorem refl (m : MainState) : m.Extends m := ⟨[], by simp, by simp⟩

theorem trans {m m' m'' : MainState} (h : m.Extends m') (h' : m'.Extends m'') : m.Extends m'' := by
  obtain ⟨new, hnew, hcalls⟩ := h
  obtain ⟨new', hnew', hcalls'⟩ := h'
  refine ⟨new ++ new', fun c hc => (List.mem_append.mp hc).elim (hnew c) (hnew' c), ?_⟩
  rw [hcalls', hcalls, List.append_assoc]

/-- One call is made. -/
theorem call (m : MainState) {c : LoggerCall} (h : c.OfMain) : m.Extends (m.call c) :=
  ⟨[c], by simpa using h, rfl⟩

/-- One LOG is made. -/
theorem LOG (m : MainState) (function : Bytes) (line : ℕ) (level : LogLevel) (text : Bytes) :
    m.Extends (m.LOG function line level text) := call m trivial

end MainState.Extends

/-- One option. -/
theorem readOption_extends (m : MainState) (r : OptionRead UInt8) :
    m.Extends (readOption m r).state := by
  -- Every option is logged before anything else.
  have hlogged := MainState.Extends.LOG m inMain 111 .DEBUG
    (bytes "Read option " ++ [r.option] ++ bytes " with arg " ++ r.optarg.getD [])
  refine hlogged.trans ?_
  unfold readOption
  dsimp only
  split
  · split <;> exact .refl _
  · split
    · exact .refl _
    · dsimp only [OptionStep.state]
      split
      · exact .LOG ..
      · exact .refl _
  · exact .call _ rfl
  · exact .LOG ..
  · exact .LOG ..
  · exact .LOG ..

/-- Reading the options makes calls of `main` only. -/
theorem readOptions_extends (g : Getopt UInt8) (m : MainState) :
    m.Extends (readOptions g m).2 := by
  -- Induction on what is left to be read.
  induction g, m using readOptions.induct with
  | case1 g m hnext =>
    rw [readOptions_of_none hnext]
    exact .refl m
  | case2 g m r g' hnext m' hread ih =>
    have hstep := readOption_extends m r
    rw [readOptions_of_some hnext]
    rw [hread] at hstep ⊢
    exact hstep.trans ih
  | case3 g m r g' hnext m' hread =>
    have hstep := readOption_extends m r
    rw [readOptions_of_some hnext]
    rw [hread] at hstep ⊢
    exact hstep
  | case4 g m r g' hnext what m' hread =>
    have hstep := readOption_extends m r
    rw [readOptions_of_some hnext]
    rw [hread] at hstep ⊢
    exact hstep.trans (.LOG ..)

/-- Setting up the signals makes calls of `main` only. -/
theorem setUpSignalHandling_extends (os : SignalAnswers) (m : MainState) :
    m.Extends (setUpSignalHandling os m).2 := by
  obtain ⟨pipe, atexit, sigaction, closeErrors⟩ := os
  cases pipe with
  | error e => exact .LOG ..
  | ok fds =>
    let opened := MainState.LOG { m with shutdownPipe := some fds }
      (bytes "set_up_signal_handling") 70 .TRACE (bytes "Opened shutdown pipe (fds: "
        ++ toDecimal fds.1 ++ bytes " " ++ toDecimal fds.2 ++ bytes ")")
    have hopened : m.Extends opened := ⟨[_], by simp [LoggerCall.OfMain], rfl⟩
    cases atexit with
    | true =>
      have hregistered : m.Extends { opened with closesPipe := true } := hopened
      -- Registered: the only LOG that can still come is the one about `sigaction`.
      cases sigaction with
      | error e => exact hregistered.trans (.LOG ..)
      | ok _ => exact hregistered
    | false =>
      cases sigaction with
      | error e => exact (hopened.trans (.LOG ..)).trans (.LOG ..)
      | ok _ => exact hopened.trans (.LOG ..)

/-- **`main` opens its files**, and then only logs, and opens the console. -/
theorem start_calls (os : SignalAnswers) (argv : List Bytes) :
    ∃ new, (∀ c ∈ new, LoggerCall.OfMain c) ∧ (start os argv).2 = mainFiles ++ new := by
  show ∃ new, _ ∧ _ = MainState.initial.calls ++ new
  have hread := readOptions_extends { args := argv.tail } .initial
  unfold start prepare
  generalize readOptions { args := argv.tail } .initial = read at hread ⊢
  obtain ⟨goesOn, m⟩ := read
  cases goesOn with
  | false => exact hread
  | true =>
    have hsignal := setUpSignalHandling_extends os m
    dsimp only
    generalize setUpSignalHandling os m = set at hsignal ⊢
    obtain ⟨ready, m'⟩ := set
    cases ready with
    | false => exact (hread.trans hsignal).trans (.LOG ..)
    | true => exact hread.trans hsignal

/-! ### The three sinks -/

/-- A `LOG`. -/
def LoggerCall.IsLOG : LoggerCall → Prop
  | .LOG _ _ _ _ _ => True
  | _ => False

/-- **What the sinks hold** when `main` has made the calls `started`, and then there have been the
    `LOG`s of `calls`, and `n` of the handler: the files all messages of their level, and the
    console all from its opening on. -/
structure MainLogs (g₀ g : Logging) (started calls : List LoggerCall) (n : ℕ) : Prop where
  info : ∃ hist, Merges (messages calls) (List.replicate n (.INFO, sigintMessage)) hist ∧
    Holds g₀ g (bytes "log/info.log") ((messages started ++ hist).filter LogLevel.INFO.lets)
  trace : ∃ hist, Merges (messages calls) (List.replicate n (.INFO, sigintMessage)) hist ∧
    Holds g₀ g (bytes "log/trace.log") (messages started ++ hist)
  console : ∀ pre post, started = pre ++ .addConsole .TRACE :: post → .addConsole .TRACE ∉ pre →
    ∃ hist, Merges (messages calls) (List.replicate n (.INFO, sigintMessage)) hist ∧
      Holds g₀ g [] (messages post ++ hist)
  noConsole : .addConsole .TRACE ∉ started → g.outputs [] = g₀.outputs []

/-- A LOG is a call that `main` may make. -/
theorem LoggerCall.IsLOG.ofMain {call : LoggerCall} (h : call.IsLOG) : call.OfMain := by
  cases call with
  | LOG level file line function text => trivial
  | _ => cases h

/-- A LOG is for no sink in particular. -/
theorem LoggerCall.IsLOG.sink_ne {call : LoggerCall} (h : call.IsLOG) (name : Bytes) :
    call.toWorkers.sink ≠ some name := by
  cases call with
  | LOG level file line function text => exact nofun
  | _ => cases h

/-- The level TRACE lets everything through. -/
theorem lets_TRACE (msgs : List (LogLevel × Bytes)) : msgs.filter LogLevel.TRACE.lets = msgs := by
  rw [List.filter_eq_self]
  rintro ⟨level, msg⟩ -
  cases level <;> rfl

section

variable {g₀ g : Logging} {started calls hist : List LoggerCall} {n : ℕ}

/-- The `LOG`s of the handler come between. -/
theorem isLOG_of_merges (hcalls : ∀ c ∈ calls, LoggerCall.IsLOG c)
    (hmerge : Merges calls (List.replicate n sigintCall) hist) :
    ∀ c ∈ hist, LoggerCall.IsLOG c := by
  intro c hc
  rcases List.mem_append.mp (hmerge.perm.mem_iff.mp hc) with hc | hc
  · exact hcalls c hc
  · rw [List.eq_of_mem_replicate hc]
    trivial

/-- The messages are merged as the calls are. -/
theorem merges_messages (hmerge : Merges calls (List.replicate n sigintCall) hist) :
    Merges (messages calls) (List.replicate n (.INFO, sigintMessage)) (messages hist) := by
  have hsigint : sigintCall.message = some (.INFO, sigintMessage) := rfl
  have hpicked := hmerge.filterMap LoggerCall.message
  rwa [List.filterMap_replicate_of_some hsigint] at hpicked

/-- A sink that `main` has opened. -/
theorem holds_of_opened {name : Bytes} {level : LogLevel} {pre post : List LoggerCall}
    {call : LoggerCall} (hpre : ∀ c ∈ pre, c.Plain ∧ c.toWorkers.sink ≠ some name)
    (hcall : call.toWorkers = .addWorker name level) (hpost : ∀ c ∈ post, c.Plain)
    (hhist : ∀ c ∈ hist, LoggerCall.IsLOG c)
    (hsink : HasSink g₀ g name (sinkAfter name ((pre ++ call :: post) ++ hist))) :
    Holds g₀ g name ((messages post ++ messages hist).filter level.lets) := by
  obtain ⟨text, hout, hwritten⟩ := hsink.written
  refine ⟨_, text, hout, hwritten, ?_⟩
  rw [List.append_assoc, List.cons_append, ← messages_append]
  refine (logged_of_opened hpre hcall fun c hc => ?_).2
  exact (List.mem_append.mp hc).elim (hpost c) fun hc => (hhist c hc).ofMain.plain

/-- Of the calls of `main` only the one for `-c` opens the console. -/
theorem plain_started {new : List LoggerCall} (hnew : ∀ c ∈ new, LoggerCall.OfMain c) :
    ∀ c ∈ mainFiles ++ new,
      c.Plain ∧ (c.toWorkers.sink = some [] → c = .addConsole .TRACE) := by
  intro c hc
  -- The two files of `main`, and what was called behind them.
  rcases List.mem_append.mp hc with hc | hc
  · have hfile : c.Plain ∧ c.toWorkers.sink ≠ some [] := by
      rcases List.mem_cons.mp hc with rfl | hc
      · exact ⟨trivial, by decide⟩
      · rw [List.mem_singleton.mp hc]
        exact ⟨trivial, by decide⟩
    exact ⟨hfile.1, fun hconsole => absurd hconsole hfile.2⟩
  · refine ⟨(hnew c hc).plain, fun hconsole => ?_⟩
    cases c with
    | addConsole level =>
      have hlevel : level = .TRACE := hnew _ hc
      rw [hlevel]
    | LOG level file line function text => cases hconsole
    | _ => cases hnew _ hc

theorem written_nil {clock : List Bytes} {name text : Bytes} (h : Written clock name [] text) :
    text = [] := by
  generalize hes : ([] : List LogEntry) = es at h
  cases h with
  | nil => rfl
  | concat e => exact absurd hes (by simp)

/-- The sinks have been given all that, each in an order of its own. -/
theorem mainLogs_of_sinks {new : List LoggerCall} (hnew : ∀ c ∈ new, LoggerCall.OfMain c)
    (hcalls : ∀ c ∈ calls, LoggerCall.IsLOG c)
    (hsinks : ∀ name, ∃ hist, Merges calls (List.replicate n sigintCall) hist ∧
      HasSink g₀ g name (sinkAfter name ((mainFiles ++ new) ++ hist))) :
    MainLogs g₀ g (mainFiles ++ new) calls n where
  info := by
    obtain ⟨hist, hmerge, hsink⟩ := hsinks (bytes "log/info.log")
    refine ⟨messages hist, merges_messages hmerge, ?_⟩
    -- Behind its opening comes that of the other file.
    have hplain : ∀ c ∈ LoggerCall.addFile (bytes "log/trace.log") .TRACE :: new, c.Plain := by
      intro c hc
      rcases List.mem_cons.mp hc with rfl | hc
      · trivial
      · exact (hnew c hc).plain
    exact @holds_of_opened g₀ g hist _ .INFO [] (_ :: new) (.addFile _ .INFO) (by simp) rfl hplain
      (isLOG_of_merges hcalls hmerge) hsink
  trace := by
    obtain ⟨hist, hmerge, hsink⟩ := hsinks (bytes "log/trace.log")
    refine ⟨messages hist, merges_messages hmerge, ?_⟩
    have hpre : ∀ c ∈ [LoggerCall.addFile (bytes "log/info.log") .INFO],
        c.Plain ∧ c.toWorkers.sink ≠ some (bytes "log/trace.log") := by
      intro c hc
      rw [List.mem_singleton.mp hc]
      exact ⟨trivial, by decide⟩
    have hheld := @holds_of_opened g₀ g hist _ .TRACE _ new _ hpre rfl
      (fun c hc => (hnew c hc).plain) (isLOG_of_merges hcalls hmerge) hsink
    rw [lets_TRACE] at hheld
    exact hheld
  console := by
    intro pre post hstarted hfirst
    obtain ⟨hist, hmerge, hsink⟩ := hsinks []
    refine ⟨messages hist, merges_messages hmerge, ?_⟩
    have hall := plain_started hnew
    rw [hstarted] at hsink hall
    have hpre : ∀ c ∈ pre, c.Plain ∧ c.toWorkers.sink ≠ some [] := by
      intro c hc
      refine ⟨(hall c (by simp [hc])).1, fun hconsole => ?_⟩
      rw [(hall c (by simp [hc])).2 hconsole] at hc
      exact hfirst hc
    have hheld := @holds_of_opened g₀ g hist [] .TRACE pre post _ hpre rfl
      (fun c hc => (hall c (by simp [hc])).1) (isLOG_of_merges hcalls hmerge) hsink
    rw [lets_TRACE] at hheld
    exact hheld
  noConsole := by
    intro hnone
    obtain ⟨hist, hmerge, hsink⟩ := hsinks []
    have hall := plain_started hnew
    have hunopened : sinkAfter [] ((mainFiles ++ new) ++ hist) = {} := by
      apply sinkAfter_unopened
      intro c hc
      rcases List.mem_append.mp hc with hc | hc
      · refine ⟨(hall c hc).1, fun hconsole => ?_⟩
        rw [(hall c hc).2 hconsole] at hc
        exact hnone hc
      · have hlog := isLOG_of_merges hcalls hmerge c hc
        exact ⟨hlog.ofMain.plain, hlog.sink_ne []⟩
    rw [hunopened] at hsink
    obtain ⟨text, hout, hwritten⟩ := hsink.written
    rw [hout, written_nil hwritten, List.append_nil]

end

/-- **The logs of the program**: when a server has been built, its `LOG`s have been made and each
    SIGINT has come in a state that the handler can interrupt, the two files hold every message of
    their level, and the console all from the first `-c` on; what `main` has logged comes first, and
    the line of the handler is there as often as there are bytes in the pipe. -/
theorem main_logs {g₀ : Logging} (hempty : g₀.workers = []) (hunlocked : g₀.mutex = {})
    (os : SignalAnswers) (argv : List Bytes) {calls : List LoggerCall}
    (hcalls : ∀ c ∈ calls, LoggerCall.IsLOG c)
    {t : Thread Shared LogStep} (h : loggerMachine.Reaches signalHandler Interruptible
      (mainThread (runCalls (start os argv).2 g₀) (calls.map LoggerCall.toWorkers)) t)
    (hidle : t.handler = none) (hend : t.code = []) :
    MainLogs g₀ t.shared.logging (start os argv).2 calls t.shared.pipe := by
  obtain ⟨new, hnew, hstarted⟩ := start_calls os argv
  have hsinks := sinks_of_end hempty hunlocked h hidle hend
  rw [hstarted] at hsinks ⊢
  exact mainLogs_of_sinks hnew hcalls hsinks

/-- A signal in front of the first line of the server. -/
theorem main_logs_poll : ∃ t : Thread Shared LogStep, t.shared.pipe = 1 ∧
    MainLogs noLogging t.shared.logging (start answersWell [bytes "evaluation"]).2
      [pollCall] 1 := by
  obtain ⟨hfree, hmutex⟩ := @interruptible_runCalls noLogging rfl rfl
    (start answersWell [bytes "evaluation"]).2
  obtain ⟨hfree', hmutex'⟩ := hfree.run (.log .INFO sigintMessage)
  -- The signal comes before the first step of the LOG, and its handler runs to the end.
  have hsignal : loggerMachine.Reaches signalHandler Interruptible
      (mainThread (runCalls (start answersWell [bytes "evaluation"]).2 noLogging)
        ([pollCall].map LoggerCall.toWorkers)) _ :=
    (Machine.Reaches.signal .start hfree).run_handler (signalHandler_completes hfree)
  have hreaders : (runCalls (start answersWell [bytes "evaluation"]).2 noLogging).mutex.readers
      = [] := by rw [hmutex]
  -- Then the LOG runs, and no code is left.
  have hend : loggerMachine.Reaches signalHandler Interruptible
      (mainThread (runCalls (start answersWell [bytes "evaluation"]).2 noLogging)
        ([pollCall].map LoggerCall.toWorkers)) ⟨_, [], none⟩ :=
    hsignal.run_thread (LogCall.completes .thread pollCall.toWorkers
      ⟨hfree'.registry, hfree'.workers⟩ ((congrArg SharedMutex.readers hmutex').trans hreaders))
  have hlog : ∀ c ∈ [pollCall], LoggerCall.IsLOG c := by simp [pollCall, LoggerCall.IsLOG]
  exact ⟨_, rfl, main_logs rfl rfl answersWell _ hlog hend rfl rfl⟩

/-! ### At exit -/

/-- What is logged at exit is logged only. -/
theorem isLOG_atExit (os : SignalAnswers) (m : MainState) (w : World) :
    ∀ c ∈ (atExit os m w).1, LoggerCall.IsLOG c := by
  unfold atExit closeShutdownPipe
  intro c hc
  split at hc
  · cases hc
  · split at hc
    · simp only [List.mem_append, List.mem_singleton] at hc
      rcases hc with (rfl | hc) | hc
      · trivial
      all_goals
        split at hc
        · rw [List.mem_singleton.mp hc]
          trivial
        · cases hc
    · cases hc

/-- The two files, and their levels. -/
def logFiles : List (Bytes × LogLevel) :=
  [(bytes "log/info.log", .INFO), (bytes "log/trace.log", .TRACE)]

/-- With no signals the files hold what has been logged. -/
theorem holds_started {g₀ : Logging} (hempty : g₀.workers = []) (os : SignalAnswers)
    (argv : List Bytes) {calls : List LoggerCall} (hcalls : ∀ c ∈ calls, LoggerCall.IsLOG c) :
    ∀ file ∈ logFiles, Holds g₀ (runCalls ((start os argv).2 ++ calls) g₀) file.1
      ((messages (start os argv).2 ++ messages calls).filter file.2.lets) := by
  obtain ⟨new, hnew, hstarted⟩ := start_calls os argv
  have hlogs :
      MainLogs g₀ (runCalls ((start os argv).2 ++ calls) g₀) (start os argv).2 calls 0 := by
    rw [hstarted]
    refine mainLogs_of_sinks hnew hcalls fun name => ⟨calls, ?_, ?_⟩
    · exact merges_nil_iff.mpr rfl
    · exact (keepsTo_runCalls hempty _).sink name
  -- No signal, so what the sinks have taken in is the calls and nothing in between.
  have hall : ∀ {hist : List (LogLevel × Bytes)},
      Merges (messages calls) (List.replicate 0 (.INFO, sigintMessage)) hist →
        hist = messages calls := fun hmerge => merges_nil_iff.mp hmerge
  unfold logFiles
  rw [List.forall_mem_cons, List.forall_mem_singleton]
  constructor
  · obtain ⟨hist, hmerge, hheld⟩ := hlogs.info
    rwa [hall hmerge] at hheld
  · obtain ⟨hist, hmerge, hheld⟩ := hlogs.trace
    rwa [hall hmerge, ← lets_TRACE (_ ++ _)] at hheld

/-- **Without a server**, on any command line, the last entry of both files is `main`'s reason when
    `main` returns; only what is logged at exit comes behind it. -/
theorem start_logsWhy {g₀ : Logging} (hempty : g₀.workers = []) (os : SignalAnswers)
    (argv : List Bytes) (h : (start os argv).1 = none) (w : World) :
    ∃ line text, ∀ file ∈ logFiles, ∃ msgs,
      Holds g₀ (runCalls (start os argv).2 g₀) file.1
        (msgs ++ [(.CRITICAL, Logger.message .CRITICAL (bytes "main.cpp") line inMain text)]) ∧
      Holds g₀ (runCalls ((start os argv).2 ++ (atExit os (prepare os argv).2 w).1) g₀) file.1
        (msgs ++ [(.CRITICAL, Logger.message .CRITICAL (bytes "main.cpp") line inMain text)] ++
          (messages (atExit os (prepare os argv).2 w).1).filter file.2.lets) := by
  obtain ⟨line, text, hlast⟩ := start_saysWhy os argv h
  obtain ⟨before, hbefore⟩ := List.getLast?_eq_some_iff.mp hlast
  have hmessages : messages (start os argv).2 = messages before
      ++ [(.CRITICAL, Logger.message .CRITICAL (bytes "main.cpp") line inMain text)] := by
    rw [hbefore, messages_append]
    rfl
  refine ⟨line, text, fun file hfile => ⟨(messages before).filter file.2.lets, ?_⟩⟩
  -- Every level lets the reason through.
  have hreason : (messages (start os argv).2).filter file.2.lets
      = (messages before).filter file.2.lets
        ++ [(.CRITICAL, Logger.message .CRITICAL (bytes "main.cpp") line inMain text)] := by
    rw [hmessages, List.filter_append]
    rfl
  have hreturned := @holds_started g₀ hempty os argv [] nofun file hfile
  have hexited := holds_started hempty os argv (isLOG_atExit os (prepare os argv).2 w) file hfile
  rw [List.append_nil, show messages [] = [] from rfl, List.append_nil, hreason] at hreturned
  rw [List.filter_append, hreason] at hexited
  exact ⟨hreturned, hexited⟩

/-- A system that opens the pipe and then refuses the handler. -/
def refusesHandler : SignalAnswers where
  pipe := .ok (5, 6)
  atexit := true
  sigaction := .error (bytes "Invalid argument")

/-- The pipe is open, and the exit handler is registered, when the signal handler is refused. -/
theorem closesPipe_refusesHandler :
    (prepare refusesHandler [bytes "evaluation"]).2.shutdownPipe = some (5, 6) ∧
      (prepare refusesHandler [bytes "evaluation"]).2.closesPipe = true := by
  unfold prepare
  rw [List.tail_cons, readOptions_of_none rfl]
  exact ⟨rfl, rfl⟩

/-- The world in which the pipe is all that is open. -/
def pipeOnly : World :=
  World.pipe { descriptors := fun _ => none, portsInUse := ∅, answers := {} } (5, 6)

/-- The files end with the reason, and at exit a line about the pipe comes behind it in the one that
    takes every level. -/
theorem start_logsWhy_handler : ∃ line text msgs closing, closing ≠ [] ∧
    Holds noLogging (runCalls (start refusesHandler [bytes "evaluation"]).2 noLogging)
      (bytes "log/trace.log")
      (msgs ++ [(.CRITICAL, Logger.message .CRITICAL (bytes "main.cpp") line inMain text)]) ∧
    Holds noLogging (runCalls ((start refusesHandler [bytes "evaluation"]).2
      ++ (atExit refusesHandler (prepare refusesHandler [bytes "evaluation"]).2 pipeOnly).1)
        noLogging) (bytes "log/trace.log")
      (msgs ++ [(.CRITICAL, Logger.message .CRITICAL (bytes "main.cpp") line inMain text)]
        ++ closing) := by
  have hnone : (start refusesHandler [bytes "evaluation"]).1 = none :=
    @start_of_accepted [] (by simp) refusesHandler (bytes "evaluation")
  obtain ⟨line, text, hwhy⟩ :=
    @start_logsWhy noLogging rfl refusesHandler [bytes "evaluation"] hnone pipeOnly
  obtain ⟨msgs, hreturned, hexited⟩ := hwhy (bytes "log/trace.log", .TRACE) (by simp [logFiles])
  refine ⟨line, text, msgs, _, ?_, hreturned, hexited⟩
  -- The file takes in every level, and the handler's first LOG is one of the messages.
  rw [lets_TRACE]
  obtain ⟨hpipe, hcloses⟩ := closesPipe_refusesHandler
  unfold atExit
  rw [hpipe]
  dsimp only
  rw [if_pos hcloses]
  exact List.cons_ne_nil _ _

end Evaluation
