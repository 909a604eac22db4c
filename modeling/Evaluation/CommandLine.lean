import Evaluation.Lib.Getopt
import Evaluation.LogHistory
import Evaluation.Server

namespace Evaluation

open Lib

/-!
# The command line

`main` reads its options with `getopt_long`: the port of the listener with `std::stoul`, kept in 16
bits, and the size of the backlog with `std::stoi`.  A text that neither reads ends `main` before a
server is built.  A port past 16 bits is cut, a backlog below 1 is only logged, and what stands
behind a number, like a sign or blanks in front of it, is passed over.

* `readOption`, `readOptions` — the loop over the options, with its calls of the logger;
* `start` — `main` up to the server; `main` — all of it; `closeShutdownPipe` — what is registered
  to run at exit; `start_saysWhy` — without a server, the log ends with the reason when `main`
  returns;
* `CommandOption`, `argv` — a sequence of options, each written in one of four ways;
* `Honours` — the server has the numbers asked for, or there is none;
* `honours_iff` — so it is if and only if `main` refuses some option, or all are numbers in range.
-/

/-! ### `main` -/

def defaultListenerPort : UInt16 := 8080
def defaultBacklogSize : ℤ := 10

/-- `short_options` and `long_options`. -/
def mainOptions : OptionTable UInt8 where
  dash := 45
  equals := 61
  invalid := 63
  missing := 58
  short := [(112, true), (98, true), (99, false)]
  long := [(bytes "port", true, 112), (bytes "backlog", true, 98), (bytes "console", false, 99)]

/-- The variables of `main`, `shutdown_pipe` once it is open, whether `close_shutdown_pipe` is
    registered to run at exit, and the calls of the logger so far. -/
structure MainState where
  listenerPort : UInt16 := defaultListenerPort
  backlogSize : ℤ := defaultBacklogSize
  shutdownPipe : Option (Fd × Fd) := none
  closesPipe : Bool := false
  calls : List LoggerCall := []
  deriving DecidableEq, Repr

namespace MainState

/-- Call the logger. -/
def call (m : MainState) (c : LoggerCall) : MainState := { m with calls := m.calls ++ [c] }

/-- A `LOG` in a function of `main.cpp`. -/
def LOG (m : MainState) (function : Bytes) (line : ℕ) (level : LogLevel) (text : Bytes) :
    MainState := m.call (.LOG level (bytes "main.cpp") line function text)

end MainState

/-- `__FUNCTION__` in `main`. -/
def inMain : Bytes := bytes "main"

/-- How an option leaves the loop: for the next one, by `return EXIT_FAILURE`, or by an exception,
    with what `what` returns. -/
inductive OptionStep where
  | next (m : MainState)
  | exitFailure (m : MainState)
  | thrown (what : Bytes) (m : MainState)
  deriving DecidableEq, Repr

/-- The variables behind the body of the loop. -/
def OptionStep.state : OptionStep → MainState
  | .next m => m
  | .exitFailure m => m
  | .thrown _ m => m

/-- The body of the loop.  (A null `optarg` makes the stream bad, and nothing that comes behind it
    is written.) -/
def readOption (m : MainState) (r : OptionRead UInt8) : OptionStep :=
  let optarg := r.optarg.getD []
  let optopt := r.optopt.getD 0
  let m := m.LOG inMain 111 .DEBUG
    (bytes "Read option " ++ [r.option] ++ bytes " with arg " ++ optarg)
  match r.option with
  | 112 => -- 'p'
    match stoul optarg with
    | .error _ => .thrown (bytes "stoul") m
    | .ok n => .next { m with listenerPort := UInt16.ofNat n }
  | 98 => -- 'b'
    match stoi optarg with
    | .error _ => .thrown (bytes "stoi") m
    | .ok n =>
      let m := { m with backlogSize := n }
      .next <| if n < 1 then
          m.LOG inMain 117 .CRITICAL (bytes "Negative value provided for backlog size (" ++ optarg
            ++ bytes " -> " ++ toDecimalInt n ++ bytes "), must be positive")
        else m
  | 99 => -- 'c'
    .next (m.call (.addConsole .TRACE))
  | 63 => -- '?'
    .exitFailure (m.LOG inMain 127 .CRITICAL
      (bytes "Command line option: " ++ [optopt] ++ bytes " is invalid"))
  | 58 => -- ':'
    .exitFailure (m.LOG inMain 130 .CRITICAL
      (bytes "Command line option " ++ [optopt] ++ bytes " missing required argument"))
  | option =>
    .exitFailure (m.LOG inMain 134 .CRITICAL
      (bytes "This should not happen so I am crashing. Option value was "
        ++ toDecimal option.toNat ++ bytes " with arg " ++ optarg
        ++ if r.optarg = none then [] else bytes " (optopt: " ++ toDecimal optopt.toNat
          ++ bytes ", opterr1)"))

/-- The loop over the options, in its `try`; whether `main` goes on. -/
def readOptions (g : Getopt UInt8) (m : MainState) : Bool × MainState :=
  match _ : mainOptions.next g with
  | none => (true, m)
  | some (r, g') =>
    match readOption m r with
    | .next m => readOptions g' m
    | .exitFailure m => (false, m)
    | .thrown what m =>
      (false, m.LOG inMain 141 .CRITICAL
        (bytes "Caught exception while handling command line arguments: " ++ what))
  termination_by g.size
  decreasing_by exact OptionTable.size_next ‹_›

/-- What the system answers while the handler of signals is set up: the two ends of the pipe, or
    what `my_strerror` says; and what that says at exit of an end that cannot be closed. -/
structure SignalAnswers where
  pipe : Except Bytes (Fd × Fd)
  atexit : Bool
  sigaction : Except Bytes Unit
  closeErrors : Bytes × Bytes := ([], [])

/-- `set_up_signal_handling`. -/
def setUpSignalHandling (os : SignalAnswers) (m : MainState) : Bool × MainState :=
  let function := bytes "set_up_signal_handling"
  match os.pipe with
  | .error e =>
    (false, m.LOG function 67 .CRITICAL (bytes "Unable to create shutdown pipe: " ++ e))
  | .ok fds =>
    let m := { m with shutdownPipe := some fds }
    let m := m.LOG function 70 .TRACE (bytes "Opened shutdown pipe (fds: " ++ toDecimal fds.1
      ++ bytes " " ++ toDecimal fds.2 ++ bytes ")")
    let m := if os.atexit then { m with closesPipe := true }
      else m.LOG function 73 .WARN
        (bytes "Unable to register `close_shutdown_pipe` at program exit")
    match os.sigaction with
    | .error e =>
      (false, m.LOG function 83 .CRITICAL
        (bytes "Unable to register signal handler for shutdown: " ++ e))
    | .ok _ => (true, m)

/-- `main` at its loop. -/
def MainState.initial : MainState where
  calls := [.addFile (bytes "log/info.log") .INFO, .addFile (bytes "log/trace.log") .TRACE]

/-- `main` up to the server: whether one is built. -/
def prepare (os : SignalAnswers) (argv : List Bytes) : Bool × MainState :=
  match readOptions { args := argv.tail } .initial with
  | (false, m) => (false, m)
  | (true, m) =>
    match setUpSignalHandling os m with
    | (false, m) => (false, m.LOG inMain 146 .CRITICAL (bytes "Falied to set up signal handling"))
    | (true, m) => (true, m)

/-- The server that is built, if one is, and the calls of the logger up to then. -/
def start (os : SignalAnswers) (argv : List Bytes) : Option HTTPServer × List LoggerCall :=
  match prepare os argv with
  | (false, m) => (none, m.calls)
  | (true, m) => (some { listenerPort := m.listenerPort, backlogSize := m.backlogSize }, m.calls)

/-- The shutdown pipe is open. -/
def World.withPipe (w : World) (m : MainState) : World :=
  match m.shutdownPipe with
  | none => w
  | some fds => w.pipe fds

/-- `main`; it returns its exit code.  The descriptors of the log files are not among those of the
    world: they are the logger's, which keeps them beyond the end of `main`. -/
def main (lib : Library) (os : SignalAnswers) (argv : List Bytes) : ServerM ℕ := do
  onWorld fun w => ((), w.withPipe (prepare os argv).2)
  match (start os argv).1 with
  | none => pure (HTTPServer.exitCode false)
  | some server => HTTPServer.serve lib server.listenerPort server.backlogSize

/-! ### At exit -/

/-- `close_shutdown_pipe`, with the calls of the logger that it makes. -/
def closeShutdownPipe (os : SignalAnswers) (fds : Fd × Fd) (w : World) :
    List LoggerCall × World :=
  let LOG := LoggerCall.LOG
  let file := bytes "main.cpp"
  let function := bytes "close_shutdown_pipe"
  let first := w.close fds.1
  let second := first.2.close fds.2
  let warns (failed : Bool) (line : ℕ) (text : Bytes) : List LoggerCall :=
    if failed then [LOG .WARN file line function text] else []
  ([LOG .TRACE file 47 function (bytes "Closing shutdown pipe (fds: " ++ toDecimal fds.1
      ++ bytes " " ++ toDecimal fds.2 ++ bytes ")")]
    ++ warns (!first.1) 50 (bytes "Unable to close shutdown_pipe[0]: " ++ os.closeErrors.1)
    ++ warns (!second.1) 53 (bytes "Unable to close shutdown_pipe[1]: " ++ os.closeErrors.2),
    second.2)

/-- What runs at exit: the handler, if it is registered. -/
def atExit (os : SignalAnswers) (m : MainState) (w : World) : List LoggerCall × World :=
  match m.shutdownPipe with
  | none => ([], w)
  | some fds => if m.closesPipe then closeShutdownPipe os fds w else ([], w)

/-! ### A sequence of options -/

/-- The options with a number. -/
inductive OptionKey where
  | port
  | backlog
  deriving DecidableEq, Repr

namespace OptionKey

def letter : OptionKey → UInt8
  | .port => 112
  | .backlog => 98

def name : OptionKey → Bytes
  | .port => bytes "port"
  | .backlog => bytes "backlog"

/-- The numbers that may be asked for. -/
def InRange : OptionKey → ℕ → Prop
  | .port, n => n ≤ 65535
  | .backlog, n => 1 ≤ n

instance (key : OptionKey) (n : ℕ) : Decidable (key.InRange n) :=
  match key with
  | .port => Nat.decLe n 65535
  | .backlog => Nat.decLe 1 n

/-- An option of `main` that takes an argument. -/
theorem takes (key : OptionKey) : mainOptions.Takes key.letter key.name := by
  cases key <;> exact ⟨by decide, by decide, by decide, by decide, by decide⟩

end OptionKey

/-- An option with its argument, and how it is written; what is joined to a letter is not empty. -/
structure CommandOption where
  key : OptionKey
  spelling : OptionTable.Spelling
  arg : Bytes
  joined : spelling = .shortJoined → arg ≠ []

/-- The elements of the command line that an option is written in. -/
def CommandOption.elements (o : CommandOption) : List Bytes :=
  mainOptions.spell o.key.letter o.key.name o.arg o.spelling

/-- The command line of a sequence of options. -/
def argv (program : Bytes) (opts : List CommandOption) : List Bytes :=
  program :: opts.flatMap CommandOption.elements

/-- The arguments of an option. -/
def argsOf (key : OptionKey) (opts : List CommandOption) : List Bytes :=
  (opts.filter fun o => o.key = key).map CommandOption.arg

/-- What the variable of the port gets from an argument that `stoul` reads. -/
def portOf (arg : Bytes) : UInt16 := UInt16.ofNat (((leadingNumber arg).getD 0) % 2 ^ 64).toNat

/-- What the variable of the backlog gets from an argument that `stoi` reads. -/
def backlogOf (arg : Bytes) : ℤ := (leadingNumber arg).getD 0

/-- The number that is written in an argument: a string of decimal digits. -/
def written (arg : Bytes) : Option ℕ :=
  if arg ≠ [] ∧ arg.all isdigit = true then some (decimal arg) else none

/-- The number in the last argument; the default when there is none. -/
def asked (reading : Bytes → Option ℕ) (default : ℕ) (args : List Bytes) : Option ℕ :=
  match args.getLast? with
  | none => some default
  | some arg => reading arg

namespace CommandOption

/-- The argument is a number that may be asked for. -/
def InRange (reading : Bytes → Option ℕ) (o : CommandOption) : Prop :=
  ∃ n, reading o.arg = some n ∧ o.key.InRange n

/-- The argument has no number at its start, behind blanks and a sign, or one that does not fit the
    type it is read in: 64 bits for the port, an `int` for the backlog. -/
def Refused (o : CommandOption) : Prop :=
  match o.key with
  | .port => ∀ n, leadingNumber o.arg = some n → 2 ^ 64 ≤ n.natAbs
  | .backlog => ∀ n, leadingNumber o.arg = some n → n < -2 ^ 31 ∨ 2 ^ 31 ≤ n

instance (reading : Bytes → Option ℕ) (o : CommandOption) : Decidable (o.InRange reading) :=
  inferInstanceAs (Decidable (∃ n ∈ reading o.arg, o.key.InRange n))

instance : (o : CommandOption) → Decidable o.Refused
  | ⟨.port, _, arg, _⟩ => inferInstanceAs (Decidable (∀ n ∈ leadingNumber arg, 2 ^ 64 ≤ n.natAbs))
  | ⟨.backlog, _, arg, _⟩ =>
    inferInstanceAs (Decidable (∀ n ∈ leadingNumber arg, n < -2 ^ 31 ∨ 2 ^ 31 ≤ n))

/-- How `getopt_long` reads it. -/
def read (o : CommandOption) : OptionRead UInt8 := { option := o.key.letter, optarg := some o.arg }

/-- What the option sets: a port keeps 16 bits of its number. -/
def store (v : UInt16 × ℤ) (o : CommandOption) : UInt16 × ℤ :=
  match o.key with
  | .port => (portOf o.arg, v.2)
  | .backlog => (v.1, backlogOf o.arg)

end CommandOption

/-- **Numbers are honoured or refused**: a server that is built has the numbers asked for last, and
    with an argument that is no number in range `main` fails without one. -/
structure Honours (reading : Bytes → Option ℕ) (opts : List CommandOption) : Prop where
  built : ∀ os program server, (start os (argv program opts)).1 = some server →
    asked reading defaultListenerPort.toNat (argsOf .port opts) = some server.listenerPort.toNat ∧
      ∃ n, asked reading defaultBacklogSize.toNat (argsOf .backlog opts) = some n ∧ 1 ≤ n ∧
        server.backlogSize = n
  refused : (∃ o ∈ opts, ¬ o.InRange reading) → ∀ os program,
    (start os (argv program opts)).1 = none ∧
      ∀ lib p, (main lib os (argv program opts)).Returns p (.ok (HTTPServer.exitCode false) p)

/-! ### The loop over a sequence of options -/

/-- The two numbers. -/
def MainState.numbers (m : MainState) : UInt16 × ℤ := (m.listenerPort, m.backlogSize)

/-- With no option left `main` goes on as it is. -/
theorem readOptions_of_none {g : Getopt UInt8} (h : mainOptions.next g = none) (m : MainState) :
    readOptions g m = (true, m) := by
  unfold readOptions
  split
  · rfl
  · rename_i h'
    rw [h] at h'
    cases h'

/-- An option is read, and then the others, unless it ends `main`. -/
theorem readOptions_of_some {g g' : Getopt UInt8} {r : OptionRead UInt8}
    (h : mainOptions.next g = some (r, g')) (m : MainState) :
    readOptions g m = match readOption m r with
      | .next m => readOptions g' m
      | .exitFailure m => (false, m)
      | .thrown what m =>
        (false, m.LOG inMain 141 .CRITICAL
          (bytes "Caught exception while handling command line arguments: " ++ what)) := by
  rw [readOptions]
  split
  · rename_i h'
    rw [h] at h'
    cases h'
  · rename_i h'
    rw [h] at h'
    cases h'
    rfl

/-- **One option** throws when its argument is refused, and sets its variable otherwise. -/
theorem readOption_read (m : MainState) (o : CommandOption) :
    (o.Refused ∧ ∃ what m', readOption m o.read = .thrown what m') ∨
      ¬ o.Refused ∧ ∃ m', readOption m o.read = .next m' ∧ m'.numbers = o.store m.numbers := by
  obtain ⟨key, spelling, arg, hjoined⟩ := o
  cases key with
  | port =>
    unfold CommandOption.Refused CommandOption.store portOf
    simp only [readOption, CommandOption.read, OptionKey.letter, Option.getD_some, stoul_eq]
    cases leadingNumber arg with
    | none => exact .inl ⟨by simp, _, _, rfl⟩
    | some n =>
      by_cases hn : 2 ^ 64 ≤ n.natAbs
      · simp only [if_pos hn]
        exact .inl ⟨by simpa using hn, _, _, rfl⟩
      · -- What `stoul` gives is cut to sixteen bits: no number it takes is refused.
        simp only [if_neg hn]
        exact .inr ⟨by simpa using hn, _, rfl, rfl⟩
  | backlog =>
    unfold CommandOption.Refused CommandOption.store backlogOf
    simp only [readOption, CommandOption.read, OptionKey.letter, Option.getD_some, stoi]
    cases leadingNumber arg with
    | none => exact .inl ⟨by simp, _, _, rfl⟩
    | some n =>
      by_cases hn : -2 ^ 31 ≤ n ∧ n < 2 ^ 31
      · simp only [if_pos hn]
        refine .inr ⟨by simp; omega, _, rfl, ?_⟩
        split <;> rfl
      · simp only [if_neg hn]
        exact .inl ⟨by simp; omega, _, _, rfl⟩

/-- An option has nothing to do with the pipe. -/
theorem readOption_shutdownPipe (m : MainState) (r : OptionRead UInt8) :
    (readOption m r).state.shutdownPipe = m.shutdownPipe := by
  unfold readOption
  dsimp only
  split
  · split <;> rfl
  · split
    · rfl
    · dsimp only [OptionStep.state]
      split <;> rfl
  all_goals rfl

/-- The command line has nothing to do with the pipe. -/
theorem readOptions_shutdownPipe (g : Getopt UInt8) (m : MainState) :
    (readOptions g m).2.shutdownPipe = m.shutdownPipe := by
  -- Induction on what is left to be read.
  induction g, m using readOptions.induct with
  | case1 g m hnext => rw [readOptions_of_none hnext]
  | case2 g m r g' hnext m' hread ih =>
    have hstep := readOption_shutdownPipe m r
    rw [readOptions_of_some hnext]
    rw [hread] at hstep ⊢
    exact ih.trans hstep
  | case3 g m r g' hnext m' hread =>
    have hstep := readOption_shutdownPipe m r
    rw [readOptions_of_some hnext]
    rw [hread] at hstep ⊢
    exact hstep
  | case4 g m r g' hnext what m' hread =>
    have hstep := readOption_shutdownPipe m r
    rw [readOptions_of_some hnext]
    rw [hread] at hstep ⊢
    exact hstep

/-- `getopt_long` reads an option in each of its four spellings. -/
theorem next_elements (o : CommandOption) (args : List Bytes) :
    mainOptions.next { args := o.elements ++ args } = some (o.read, { args }) :=
  OptionTable.next_spell o.key.takes o.arg o.joined args

/-- The loop ends `main` if one of the options is refused, whatever stands before and behind it. -/
theorem readOptions_of_refused {opts : List CommandOption} (h : ∃ o ∈ opts, o.Refused)
    (m : MainState) :
    (readOptions { args := opts.flatMap CommandOption.elements } m).1 = false := by
  induction opts generalizing m with
  | nil =>
    obtain ⟨o, ho, _⟩ := h
    exact absurd ho List.not_mem_nil
  | cons o opts ih =>
    rw [List.flatMap_cons, readOptions_of_some (next_elements o _)]
    obtain ⟨_, what, m', hread⟩ | ⟨ho, m', hread, _⟩ := readOption_read m o
    · rw [hread]
    · rw [hread]
      refine ih ?_ m'
      obtain ⟨o', ho', hrefused⟩ := h
      obtain rfl | ho' := List.mem_cons.mp ho'
      · exact absurd hrefused ho
      · exact ⟨o', ho', hrefused⟩

/-- Otherwise it comes to its end, and has set what the options set, one after the other. -/
theorem readOptions_of_accepted {opts : List CommandOption} (h : ∀ o ∈ opts, ¬ o.Refused)
    (m : MainState) :
    ∃ m', readOptions { args := opts.flatMap CommandOption.elements } m = (true, m') ∧
      m'.numbers = opts.foldl CommandOption.store m.numbers := by
  induction opts generalizing m with
  | nil => exact ⟨m, readOptions_of_none rfl m, rfl⟩
  | cons o opts ih =>
    obtain ⟨ho, hopts⟩ := List.forall_mem_cons.mp h
    rw [List.flatMap_cons, readOptions_of_some (next_elements o _)]
    obtain ⟨hrefused, _⟩ | ⟨_, m', hread, hstore⟩ := readOption_read m o
    · exact absurd hrefused ho
    · rw [hread, List.foldl_cons, ← hstore]
      exact ih hopts m'

/-- The pipe is there, and the handler. -/
def SignalAnswers.ready (os : SignalAnswers) : Bool := os.pipe.isOk && os.sigaction.isOk

/-- Setting up the handler of signals sets no number. -/
theorem setUpSignalHandling_spec (os : SignalAnswers) (m : MainState) :
    ∃ m', setUpSignalHandling os m = (os.ready, m') ∧ m'.numbers = m.numbers := by
  obtain ⟨pipe, atexit, sigaction⟩ := os
  cases pipe with
  | error e => exact ⟨_, rfl, rfl⟩
  | ok fds =>
    cases atexit <;> cases sigaction <;> exact ⟨_, rfl, rfl⟩

/-- The pipe is not opened, or it is the one that the system has given, and closed at exit if that
    could be arranged. -/
theorem prepare_pipe (os : SignalAnswers) (argv : List Bytes) :
    (prepare os argv).2.shutdownPipe = none ∨ ∃ fds, os.pipe = .ok fds ∧
      (prepare os argv).2.shutdownPipe = some fds ∧
        (os.atexit = true → (prepare os argv).2.closesPipe = true) := by
  have hread := readOptions_shutdownPipe { args := argv.tail } .initial
  unfold prepare
  generalize readOptions { args := argv.tail } .initial = read at hread ⊢
  -- Only a command line that is accepted gets as far as the pipe.
  obtain ⟨goesOn, m⟩ := read
  cases goesOn with
  | false => exact .inl hread
  | true =>
    obtain ⟨pipe, atexit, sigaction, closeErrors⟩ := os
    cases pipe with
    | error e => exact .inl hread
    | ok fds =>
      refine .inr ⟨fds, rfl, ?_⟩
      cases atexit with
      | true => cases sigaction <;> exact ⟨rfl, fun _ => rfl⟩
      | false => cases sigaction <;> exact ⟨rfl, nofun⟩

/-! ### `main` says why it fails -/

/-- The last call is a `LOG(CRITICAL)` in `main`. -/
def SaysWhy (calls : List LoggerCall) : Prop :=
  ∃ line text, calls.getLast? = some (.LOG .CRITICAL (bytes "main.cpp") line inMain text)

/-- A CRITICAL comes last where it has just been logged. -/
theorem saysWhy_LOG (m : MainState) (line : ℕ) (text : Bytes) :
    SaysWhy (m.LOG inMain line .CRITICAL text).calls :=
  ⟨line, text, List.getLast?_concat ..⟩

/-- An option that ends `main` has said why. -/
theorem readOption_saysWhy {m m' : MainState} {r : OptionRead UInt8}
    (h : readOption m r = .exitFailure m') : SaysWhy m'.calls := by
  unfold readOption at h
  dsimp only at h
  split at h
  · split at h <;> cases h
  · split at h <;> cases h
  · cases h
  · cases h
    exact saysWhy_LOG ..
  · cases h
    exact saysWhy_LOG ..
  · cases h
    exact saysWhy_LOG ..

/-- A command line that ends `main` has said why. -/
theorem readOptions_saysWhy (g : Getopt UInt8) (m : MainState) (h : (readOptions g m).1 = false) :
    SaysWhy (readOptions g m).2.calls := by
  -- Induction on what is left to be read.
  induction g, m using readOptions.induct with
  | case1 g m hnext =>
    rw [readOptions_of_none hnext] at h
    cases h
  | case2 g m r g' hnext m' hread ih =>
    rw [readOptions_of_some hnext, hread] at h ⊢
    exact ih h
  | case3 g m r g' hnext m' hread =>
    rw [readOptions_of_some hnext, hread]
    exact readOption_saysWhy hread
  | case4 g m r g' hnext what m' hread =>
    rw [readOptions_of_some hnext, hread]
    exact saysWhy_LOG ..

/-- **Without a server**, on any command line, the last entry of the log is `main`'s reason. -/
theorem start_saysWhy (os : SignalAnswers) (argv : List Bytes) (h : (start os argv).1 = none) :
    SaysWhy (start os argv).2 := by
  have hwhy := readOptions_saysWhy { args := argv.tail } .initial
  unfold start prepare at h ⊢
  generalize readOptions { args := argv.tail } .initial = read at h hwhy ⊢
  obtain ⟨goesOn, m⟩ := read
  cases goesOn with
  | false => exact hwhy rfl
  | true =>
    obtain ⟨m', hsignal, _⟩ := setUpSignalHandling_spec os m
    dsimp only at h ⊢
    rw [hsignal] at h ⊢
    cases hready : os.ready with
    | false => exact saysWhy_LOG ..
    | true =>
      rw [hready] at h
      cases h

/-! ### The server that is built -/

section

variable {opts : List CommandOption}

/-- An argument that is refused leaves no server to be built. -/
theorem start_of_refused (h : ∃ o ∈ opts, o.Refused) (os : SignalAnswers) (program : Bytes) :
    (start os (argv program opts)).1 = none := by
  have hfalse := readOptions_of_refused h .initial
  unfold start prepare
  rw [argv, List.tail_cons]
  generalize readOptions _ _ = r at hfalse ⊢
  obtain ⟨_, m⟩ := r
  cases hfalse
  rfl

/-- The pipe is not opened then. -/
theorem shutdownPipe_of_refused (h : ∃ o ∈ opts, o.Refused) (os : SignalAnswers)
    (program : Bytes) : (prepare os (argv program opts)).2.shutdownPipe = none := by
  have hfalse := readOptions_of_refused h .initial
  have hpipe := readOptions_shutdownPipe { args := opts.flatMap CommandOption.elements } .initial
  unfold prepare
  rw [argv, List.tail_cons]
  generalize readOptions _ _ = r at hfalse hpipe ⊢
  obtain ⟨_, m⟩ := r
  cases hfalse
  exact hpipe

/-- The last `-p` counts. -/
theorem store_port (v : UInt16 × ℤ) :
    (opts.foldl CommandOption.store v).1 = ((argsOf .port opts).getLast?.map portOf).getD v.1 := by
  rw [argsOf, List.getLast?_map, Option.map_map]
  refine foldl_lastWrite Prod.fst (fun v o ho => ?_) (fun v o ho => ?_) opts v
  all_goals cases hkey : o.key <;> simp_all [CommandOption.store]

/-- The last `-b` counts. -/
theorem store_backlog (v : UInt16 × ℤ) :
    (opts.foldl CommandOption.store v).2
      = ((argsOf .backlog opts).getLast?.map backlogOf).getD v.2 := by
  rw [argsOf, List.getLast?_map, Option.map_map]
  refine foldl_lastWrite Prod.snd (fun v o ho => ?_) (fun v o ho => ?_) opts v
  all_goals cases hkey : o.key <;> simp_all [CommandOption.store]

/-- **With no option refused** the server is built, with the last number of each kind, the port cut
    to 16 bits and the backlog as it is; all that may still fail is the handler of signals. -/
theorem start_of_accepted (h : ∀ o ∈ opts, ¬ o.Refused) (os : SignalAnswers) (program : Bytes) :
    (start os (argv program opts)).1 = if os.ready then
      some
        { listenerPort := ((argsOf .port opts).getLast?.map portOf).getD defaultListenerPort
          backlogSize := ((argsOf .backlog opts).getLast?.map backlogOf).getD defaultBacklogSize }
      else none := by
  obtain ⟨m, hread, hm⟩ := readOptions_of_accepted h .initial
  -- Setting up the handler leaves the numbers alone, and its success is what the start depends on.
  obtain ⟨m', hsignal, hm'⟩ := setUpSignalHandling_spec os m
  have hport : m'.listenerPort = _ := (congrArg Prod.fst (hm'.trans hm)).trans (store_port _)
  have hbacklog : m'.backlogSize = _ := (congrArg Prod.snd (hm'.trans hm)).trans (store_backlog _)
  unfold start prepare
  rw [argv, List.tail_cons, hread]
  dsimp only
  rw [hsignal]
  cases os.ready with
  | false => rfl
  | true =>
    dsimp only
    rw [hport, hbacklog]
    rfl

/-- The port is the number, in 16 bits. -/
theorem toNat_portOf {arg : Bytes} {n : ℤ} (h : leadingNumber arg = some n) :
    (portOf arg).toNat = (n % 2 ^ 16).toNat := by
  rw [portOf, h, Option.getD_some, UInt16.toNat_ofNat']
  omega

/-! ### Honoured or refused -/

/-- A number that is written out is the one that `stoul` and `stoi` read. -/
theorem leadingNumber_of_written {arg : Bytes} {n : ℕ} (h : written arg = some n) :
    leadingNumber arg = some (n : ℤ) := by
  obtain ⟨⟨hne, hall⟩, hn⟩ := Option.ite_none_right_eq_some.mp h
  have hdigits := leadingNumber_digits arg [] hne (List.all_eq_true.mp hall) (by simp)
  rw [List.append_nil, Option.some.inj hn] at hdigits
  exact hdigits

variable {reading : Bytes → Option ℕ}

/-- With an option refused there is no server, and nothing else happens. -/
theorem honours_of_refused (h : ∃ o ∈ opts, o.Refused) : Honours reading opts := by
  have hnone := fun os program => start_of_refused h os program
  refine ⟨fun os program server hserver => ?_, fun _ os program => ⟨hnone os program, ?_⟩⟩
  · rw [hnone] at hserver
    cases hserver
  · intro lib p
    unfold main World.withPipe
    rw [shutdownPipe_of_refused h, hnone]
    exact (Prog.returns_bind_of_ok ((Prog.returns_ofFun ..).mpr rfl) _).mpr
      ((Prog.returns_pure ..).mpr rfl)

/-- A system where nothing fails before the server. -/
def answersWell : SignalAnswers where
  pipe := .ok (5, 6)
  atexit := true
  sigaction := .ok ()

/-- With no option refused a server is built, on a system that answers well. -/
theorem inRange_of_honours (haccepted : ∀ o ∈ opts, ¬ o.Refused) (h : Honours reading opts) :
    ∀ o ∈ opts, o.InRange reading := by
  intro o ho
  by_contra hnot
  have hnone := (h.refused ⟨o, ho, hnot⟩ answersWell []).1
  rw [start_of_accepted haccepted] at hnone
  cases hnone

/-- With all arguments in range there is no option of a kind, or the last one has such an
    argument. -/
theorem last_inRange (h : ∀ o ∈ opts, o.InRange reading) (key : OptionKey) :
    (argsOf key opts).getLast? = none ∨
      ∃ arg n, (argsOf key opts).getLast? = some arg ∧ reading arg = some n ∧ key.InRange n := by
  cases hlast : (argsOf key opts).getLast? with
  | none => exact .inl rfl
  | some arg =>
    obtain ⟨o, ho, rfl⟩ := List.mem_map.mp (List.mem_of_getLast? hlast)
    obtain ⟨hmem, hkey⟩ := List.mem_filter.mp ho
    obtain ⟨n, hn, hrange⟩ := h o hmem
    exact .inr ⟨o.arg, n, rfl, hn, of_decide_eq_true hkey ▸ hrange⟩

variable (hreading : ∀ arg n, reading arg = some n → leadingNumber arg = some (n : ℤ))

include hreading

/-- The port asked for is the one that `main` takes. -/
theorem asked_port (h : ∀ o ∈ opts, o.InRange reading) :
    asked reading defaultListenerPort.toNat (argsOf .port opts)
      = some (((argsOf .port opts).getLast?.map portOf).getD defaultListenerPort).toNat := by
  unfold asked
  obtain hnone | ⟨arg, n, hlast, hn, hrange⟩ := last_inRange h .port
  · rw [hnone]
    rfl
  · have hle : n ≤ 65535 := hrange
    rw [hlast]
    show reading arg = some (portOf arg).toNat
    rw [hn, toNat_portOf (hreading arg n hn)]
    congr 1
    omega

/-- The backlog asked for is the one that `main` takes. -/
theorem asked_backlog (h : ∀ o ∈ opts, o.InRange reading) :
    ∃ n, asked reading defaultBacklogSize.toNat (argsOf .backlog opts) = some n ∧ 1 ≤ n ∧
      ((argsOf .backlog opts).getLast?.map backlogOf).getD defaultBacklogSize = n := by
  unfold asked
  obtain hnone | ⟨arg, n, hlast, hn, hrange⟩ := last_inRange h .backlog
  · rw [hnone]
    exact ⟨10, rfl, by omega, rfl⟩
  · rw [hlast]
    refine ⟨n, hn, hrange, ?_⟩
    show backlogOf arg = n
    rw [backlogOf, hreading arg n hn, Option.getD_some]

/-- Arguments in range that are not refused. -/
theorem honours_of_inRange (hrange : ∀ o ∈ opts, o.InRange reading)
    (haccepted : ∀ o ∈ opts, ¬ o.Refused) : Honours reading opts := by
  refine ⟨fun os program server h => ?_, fun hnot => ?_⟩
  · rw [start_of_accepted haccepted] at h
    obtain ⟨_, hserver⟩ := Option.ite_none_right_eq_some.mp h
    obtain rfl := Option.some.inj hserver
    exact ⟨asked_port hreading hrange, asked_backlog hreading hrange⟩
  · obtain ⟨o, ho, hnot⟩ := hnot
    exact absurd (hrange o ho) hnot

/-- Whatever counts as a number, as long as it is the one at the start of the argument. -/
theorem honours_reading_iff (opts : List CommandOption) :
    Honours reading opts ↔ (∃ o ∈ opts, o.Refused) ∨ ∀ o ∈ opts, o.InRange reading := by
  by_cases hrefused : ∃ o ∈ opts, o.Refused
  · exact iff_of_true (honours_of_refused hrefused) (.inl hrefused)
  · have haccepted : ∀ o ∈ opts, ¬ o.Refused := fun o ho h => hrefused ⟨o, ho, h⟩
    constructor
    · intro h
      exact .inr (inRange_of_honours haccepted h)
    · intro h
      exact honours_of_inRange hreading (h.resolve_left hrefused) haccepted

end

/-- **A sequence of options is honoured or refused** if and only if one of its arguments has no
    number at its start, or one past the type it is read in, or all are decimal numbers in range. -/
theorem honours_iff (opts : List CommandOption) :
    Honours written opts ↔ (∃ o ∈ opts, o.Refused) ∨ ∀ o ∈ opts, o.InRange written :=
  honours_reading_iff (fun _ _ => leadingNumber_of_written) opts

/-- `-p` or `-b`, and its argument. -/
def shortOption (key : OptionKey) (arg : Bytes) : CommandOption := ⟨key, .short, arg, nofun⟩

/-- `-p 70000` listens on 4464, `-b 0` has a backlog of 0, and `-p 8080x` listens on 8080. -/
theorem not_honoured :
    ((start answersWell (argv (bytes "evaluation") [shortOption .port (bytes "70000")])).1
        = some { listenerPort := 4464, backlogSize := 10 } ∧
      ¬ Honours written [shortOption .port (bytes "70000")]) ∧
    ((start answersWell (argv (bytes "evaluation") [shortOption .backlog (bytes "0")])).1
        = some { listenerPort := 8080, backlogSize := 0 } ∧
      ¬ Honours written [shortOption .backlog (bytes "0")]) ∧
    (start answersWell (argv (bytes "evaluation") [shortOption .port (bytes "8080x")])).1
        = some { listenerPort := 8080, backlogSize := 10 } ∧
      ¬ Honours written [shortOption .port (bytes "8080x")] := by
  refine ⟨⟨?_, fun h => ?_⟩, ⟨?_, fun h => ?_⟩, ?_, fun h => ?_⟩
  · rw [start_of_accepted (by decide)]
    decide
  · exact absurd (inRange_of_honours (by decide) h) (by decide)
  · rw [start_of_accepted (by decide)]
    decide
  · exact absurd (inRange_of_honours (by decide) h) (by decide)
  · rw [start_of_accepted (by decide)]
    decide
  · exact absurd (inRange_of_honours (by decide) h) (by decide)

end Evaluation
