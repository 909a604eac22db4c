import Evaluation.Lib.Threads
import Evaluation.LogSignals

namespace Evaluation

open Lib Logging

/-!
# The logger, one insertion at a time

Two threads that write to one stream write between each other's insertions; it is the locks of the
logger that prevent it, and nothing else.  So for threads the steps that write to a sink are the
insertions of which they consist.

* `ThreadStep`, `threadMachine` — the steps of a thread;
* `LogStep.writes` — the insertions of a step of the logger;
* `completes_of_logger` — with nothing in between they do what the step does.
-/

/-- A step of a thread: one of the logger, or an insertion into a stream, the look at the clock, or
    the assignment of a level, of which the steps of the logger that write consist. -/
inductive ThreadStep where
  | step (i : LogStep)
  | readTime (name : Bytes)
  | write (name text : Bytes)
  | storeLevel (name : Bytes) (level : LogLevel)
  deriving DecidableEq, Repr

/-- The loop over the lines of a message, from a position on. -/
def linePieces (msg : Bytes) (start : ℕ) : List Bytes :=
  if start < msg.length then
    let stop := start + ((msg.drop start).findIdx? (· == newline)).getD (msg.length - start)
    (if 0 < start then
        [List.replicate (timeFmtWidth + levelFmtWidth + 3) space, bytes "-> "] else [])
      ++ ((msg.drop start).take (stop - start + 1) :: linePieces msg (stop + 1))
  else []
  termination_by msg.length - start

/-- What `Worker::log` inserts behind the time. -/
def messageTexts (name : Bytes) (level : LogLevel) (msg : Bytes) : List Bytes :=
  logColor name level :: (linePieces (stripNewlines msg) 0 ++ [resetColor name, [newline]])

/-- The insertions of a step that writes to a sink. -/
def LogStep.writes (g : Logging) : LogStep → Option (List ThreadStep)
  | .logTo name level msg =>
    match g.workers.lookup name with
    | none => some []
    | some worker =>
      if worker.level.toNat < level.toNat then some []
      else some (.readTime name :: (messageTexts name level msg).map (.write name))
  | .openWorker name level =>
    some ([.write name (List.replicate timeFmtWidth 45), .write name [newline], .readTime name,
      .write name (List.replicate (fullHeaderWidth - timeFmtWidth) 45), .write name [newline],
      .readTime name, .write name (bytes "Opening \""),
      .write name (if name = [] then bytes "Console" else name),
      .write name (bytes "\" for logging at level "), .write name (toStr level),
      .write name [newline]])
  | .changeLevel name level =>
    match g.workers.lookup name with
    | none => some []
    | some worker =>
      some [.readTime name, .write name (bytes "Changing log level from "),
        .write name (toStr worker.level), .write name (bytes " to "), .write name (toStr level),
        .write name [newline], .storeLevel name level]
  | _ => none

/-- One step of a thread.  The locks do not ask which thread it is that holds them. -/
def execThreadStep (i : ThreadStep) (s : Shared) : Option (List ThreadStep × Shared) :=
  match i with
  | .step i =>
    match i.writes s.logging with
    | some new => some (new, s)
    | none => (execLogStep .thread i s).map fun (new, s') => (new.map .step, s')
  | .readTime name =>
    some ([.write name (s.logging.clock.headD []), .write name (bytes " | ")],
      s.onLogging fun g => { g with clock := g.clock.tail })
  | .write name text => some ([], s.onLogging (·.write name text))
  | .storeLevel name level => some ([], s.onLogging (·.update name fun w => { w with level }))

def threadMachine : Machine Shared ThreadStep := ⟨fun _ => execThreadStep⟩

/-! ### What the insertions come to -/

/-- The insertions of the lines, one after the other, are the lines. -/
theorem flatten_linePieces (msg : Bytes) (start : ℕ) :
    (linePieces msg start).flatten = logLines msg start := by
  induction start using linePieces.induct msg with
  | case1 start hstart stop ih =>
    rw [linePieces, if_pos hstart, logLines, if_pos hstart, List.flatten_append,
      List.flatten_cons, ih]
    split
    · simp [continuation]
      rfl
    · simp
      rfl
  | case2 start hstart => rw [linePieces, if_neg hstart, logLines, if_neg hstart, List.flatten_nil]

/-- The insertions of a message, one after the other, are the message. -/
theorem flatten_messageTexts (name : Bytes) (level : LogLevel) (msg : Bytes) :
    (messageTexts name level msg).flatten
      = logColor name level ++ logLines (stripNewlines msg) 0 ++ resetColor name ++ [newline] := by
  simp [messageTexts, flatten_linePieces]

namespace Logging

theorem write_nil (g : Logging) (name : Bytes) : g.write name [] = g := by
  unfold write
  rw [List.append_nil, Function.update_eq_self]

/-- Two insertions are one of both texts. -/
theorem write_write (g : Logging) (name text text' : Bytes) :
    (g.write name text).write name text' = g.write name (text ++ text') := by
  simp [write, Function.update_idem, List.append_assoc]

end Logging

section

variable {s t : Shared} {name : Bytes} {code : List ThreadStep}

/-- Insertions come to their end as one of all texts. -/
theorem completes_texts {texts : List Bytes}
    (h : threadMachine.Completes .thread (s.onLogging (·.write name texts.flatten)) code t) :
    threadMachine.Completes .thread s (texts.map (.write name) ++ code) t := by
  induction texts generalizing s with
  | nil =>
    have hsame : s.onLogging (·.write name []) = s :=
      congrArg (fun g => Shared.mk g s.pipe) (write_nil s.logging name)
    rwa [List.flatten_nil, hsame] at h
  | cons text texts ih =>
    refine .cons rfl (ih ?_)
    have hsame : (s.onLogging (·.write name text)).onLogging (·.write name texts.flatten)
        = s.onLogging (·.write name (text ++ texts.flatten)) :=
      congrArg (fun g => Shared.mk g s.pipe) (write_write s.logging name text texts.flatten)
    rwa [hsame]

/-- Looking at the clock comes to its end as the stamp does. -/
theorem completes_readTime
    (h : threadMachine.Completes .thread (s.onLogging (·.logTime name)) code t) :
    threadMachine.Completes .thread s (.readTime name :: code) t := by
  refine .cons rfl ?_
  refine @completes_texts _ t name code [s.logging.clock.headD [], bytes " | "] ?_
  simpa [Shared.onLogging, Logging.logTime, Logging.write] using h

/-! ### The steps of the logger -/

/-- A step that writes is taken as its insertions. -/
theorem exec_writes {i : LogStep} {new : List ThreadStep}
    (h : i.writes s.logging = some new) : execThreadStep (.step i) s = some (new, s) := by
  simp only [execThreadStep, h]

/-- Any other step is taken as it is. -/
theorem exec_plain {i : LogStep} {new : List LogStep} {s' : Shared}
    (h : i.writes s.logging = none) (hexec : execLogStep .thread i s = some (new, s')) :
    execThreadStep (.step i) s = some (new.map .step, s') := by
  simp only [execThreadStep, h, hexec, Option.map_some]

/-- A worker whose level is too low inserts nothing. -/
theorem writes_logTo_silent {level : LogLevel}
    (h : ∀ worker, s.logging.workers.lookup name = some worker →
      worker.level.toNat < level.toNat) (msg : Bytes) :
    (LogStep.logTo name level msg).writes s.logging = some [] := by
  cases hlookup : s.logging.workers.lookup name with
  | none => simp only [LogStep.writes, hlookup]
  | some worker => simp only [LogStep.writes, hlookup, if_pos (h worker hlookup)]

/-- A worker looks at the clock and then inserts the message. -/
theorem writes_logTo {worker : Worker} {level : LogLevel}
    (hlookup : s.logging.workers.lookup name = some worker)
    (hle : level.toNat ≤ worker.level.toNat) (msg : Bytes) :
    (LogStep.logTo name level msg).writes s.logging
      = some (.readTime name :: (messageTexts name level msg).map (.write name)) := by
  simp only [LogStep.writes, hlookup, if_neg (Nat.not_lt.mpr hle)]

/-- **A step of the logger**, one insertion after the other. -/
theorem completes_step {i : LogStep} {new : List LogStep} {s' : Shared}
    (hexec : execLogStep .thread i s = some (new, s'))
    (h : threadMachine.Completes .thread s' (new.map .step ++ code) t) :
    threadMachine.Completes .thread s (.step i :: code) t := by
  cases i with
  | logTo name level msg =>
    cases hexec
    by_cases henabled : ∃ worker, s.logging.workers.lookup name = some worker ∧
        level.toNat ≤ worker.level.toNat
    · obtain ⟨worker, hlookup, hle⟩ := henabled
      refine .cons (exec_writes (writes_logTo hlookup hle msg)) ?_
      refine completes_readTime (completes_texts ?_)
      rw [flatten_messageTexts]
      simpa only [Shared.onLogging, logTo_eq hlookup hle, List.map_nil, List.nil_append] using h
    · have hsilent : ∀ worker, s.logging.workers.lookup name = some worker →
          worker.level.toNat < level.toNat :=
        fun worker hlookup => Nat.not_le.mp fun hle => henabled ⟨worker, hlookup, hle⟩
      refine .cons (exec_writes (writes_logTo_silent hsilent msg)) ?_
      simpa only [Shared.onLogging, logTo_eq_self_of_silent hsilent, List.map_nil] using h
  | openWorker name level =>
    cases hexec
    refine .cons (@exec_writes s (.openWorker name level) _ rfl) ?_
    refine @completes_texts _ t name _ [List.replicate timeFmtWidth 45, [newline]] ?_
    refine completes_readTime ?_
    refine @completes_texts _ t name _
      [List.replicate (fullHeaderWidth - timeFmtWidth) 45, [newline]] ?_
    refine completes_readTime ?_
    refine @completes_texts _ t name _ [bytes "Opening \"",
      if name = [] then bytes "Console" else name, bytes "\" for logging at level ", toStr level,
      [newline]] ?_
    simpa [Shared.onLogging, Logging.logOpeningMessage, List.append_assoc] using h
  | changeLevel name level =>
    cases hexec
    cases hlookup : s.logging.workers.lookup name with
    | none =>
      have hwrites : (LogStep.changeLevel name level).writes s.logging = some [] := by
        simp only [LogStep.writes, hlookup]
      refine .cons (exec_writes hwrites) ?_
      simpa only [Shared.onLogging, Logging.changeLevel, hlookup, List.map_nil] using h
    | some worker =>
      refine .cons (exec_writes (by simp only [LogStep.writes, hlookup]; rfl)) ?_
      refine completes_readTime ?_
      refine @completes_texts _ t name _ [bytes "Changing log level from ", toStr worker.level,
        bytes " to ", toStr level, [newline]] (.cons rfl ?_)
      simpa [Shared.onLogging, Logging.changeLevel, hlookup, List.append_assoc] using h
  | _ => exact .cons (exec_plain rfl hexec) h

/-- **Whole calls** of the logger, one insertion after the other. -/
theorem completes_of_logger {code : List LogStep} (h : loggerMachine.Completes .thread s code t) :
    threadMachine.Completes .thread s (code.map .step) t := by
  induction h with
  | nil => exact .nil _
  | cons hexec _ ih =>
    rw [List.map_append] at ih
    exact completes_step hexec ih

end

end Evaluation
