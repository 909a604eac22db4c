import Evaluation.Logger

namespace Evaluation

open Lib

/-!
# SIGINT

The handler that `set_up_signal_handling` installs logs a line, and then writes to the shutdown
pipe.  It runs on the thread that the signal has interrupted, so it waits for ever if that thread
holds a lock that the logger needs: a worker's mutex while it logs, or the registry alone while it
changes it.

* `LogStep`, `loggerMachine` — the operations of the logger, one lock or write at a time;
* `LogCall.completes` — with nothing in between they do what `Logging.log` and its siblings do;
* `Interruptible` — no lock is held that the handler needs; `signalHandler_completes_iff` — those
  are the states from which the handler comes to its end;
* `sigint_reaches_pipe` — so it does in every run in which each signal arrives in such a state.
-/

/-- The steps of the logger, and the write to the pipe. -/
inductive LogStep where
  | lockShared
  | unlockShared
  | lock
  | unlock
  | eachWorker (level : LogLevel) (msg : Bytes)
  | lockWorker (name : Bytes)
  | unlockWorker (name : Bytes)
  | logTo (name : Bytes) (level : LogLevel) (msg : Bytes)
  | openWorker (name : Bytes) (level : LogLevel)
  | tryEmplace (name : Bytes) (level : LogLevel)
  | at (name : Bytes) (level : LogLevel)
  | changeLevel (name : Bytes) (level : LogLevel)
  | erase (name : Bytes)
  | writePipe
  deriving DecidableEq, Repr

/-- The mutex of a worker is taken or given back. -/
def Logging.setHolder (g : Logging) (name : Bytes) (holder : Option Context) : Logging :=
  g.update name fun w => { w with holder }

/-- What the thread and the handler share: the logger, and the number of bytes in the pipe. -/
structure Shared where
  logging : Logging
  pipe : ℕ

namespace Shared

/-- Change the logger. -/
def onLogging (s : Shared) (f : Logging → Logging) : Shared := { s with logging := f s.logging }

def setMutex (s : Shared) (mutex : SharedMutex) : Shared :=
  s.onLogging fun g => { g with mutex }

/-- The registry is held by one more reader, and by one less. -/
def takeShared (s : Shared) (c : Context) : Shared :=
  let mutex := s.logging.mutex
  s.setMutex { mutex with readers := c :: mutex.readers }

def releaseShared (s : Shared) (c : Context) : Shared :=
  let mutex := s.logging.mutex
  s.setMutex { mutex with readers := mutex.readers.erase c }

/-- A worker's mutex is held. -/
def held (s : Shared) (name : Bytes) : Bool :=
  s.logging.workers.any fun e => e.1 = name ∧ e.2.holder.isSome

end Shared

/-- `Worker::log` for one worker. -/
def workerLogCode (level : LogLevel) (msg name : Bytes) : List LogStep :=
  [.lockWorker name, .logTo name level msg, .unlockWorker name]

/-- One step: `lock` waits for everybody, `lock_shared` for an owner, and a worker's mutex for
    its holder. -/
def execLogStep (c : Context) (i : LogStep) (s : Shared) : Option (List LogStep × Shared) :=
  let mutex := s.logging.mutex
  match i with
  | .lockShared => if mutex.owner.isSome then none else some ([], s.takeShared c)
  | .unlockShared => some ([], s.releaseShared c)
  | .lock =>
    if mutex.owner.isSome ∨ mutex.readers ≠ [] then none
    else some ([], s.setMutex { mutex with owner := some c })
  | .unlock => some ([], s.setMutex { mutex with owner := none })
  | .eachWorker level msg =>
    some ((s.logging.workers.map Prod.fst).flatMap (workerLogCode level msg), s)
  | .lockWorker name =>
    if s.held name then none
    else some ([], s.onLogging (·.setHolder name (some c)))
  | .unlockWorker name => some ([], s.onLogging (·.setHolder name none))
  | .logTo name level msg => some ([], s.onLogging (·.logTo name level msg))
  | .openWorker name level => some ([], s.onLogging (·.logOpeningMessage name level))
  | .tryEmplace name level => some ([], s.onLogging (·.tryEmplace name level))
  | .at name level =>
    -- `at` throws when there is no such worker; the guard gives the registry back all the same.
    if (s.logging.workers.lookup name).isSome then
      some ([.lockWorker name, .changeLevel name level, .unlockWorker name], s)
    else some ([], s)
  | .changeLevel name level => some ([], s.onLogging (·.changeLevel name level))
  | .erase name => some ([], s.onLogging (·.erase name))
  | .writePipe => some ([], { s with pipe := s.pipe + 1 })

def loggerMachine : Machine Shared LogStep := ⟨execLogStep⟩

/-- The calls of the logger that the main thread makes. -/
inductive LogCall where
  | log (level : LogLevel) (msg : Bytes)
  | addWorker (name : Bytes) (level : LogLevel)
  | setLevel (name : Bytes) (level : LogLevel)
  | removeWorker (name : Bytes)
  deriving DecidableEq, Repr

/-- The steps of a call. -/
def LogCall.code : LogCall → List LogStep
  | log level msg => [.lockShared, .eachWorker level msg, .unlockShared]
  | addWorker name level => [.lock, .openWorker name level, .tryEmplace name level, .unlock]
  | setLevel name level => [.lock, .at name level, .unlock]
  | removeWorker name => [.lock, .erase name, .unlock]

/-- What the handler logs. -/
def sigintMessage : Bytes :=
  Logger.message .INFO (bytes "main.cpp") 59 (bytes "signal_handler")
    (bytes "SIGINT received, sending shutdown to HTTP server...")

/-- `signal_handler(SIGINT)`. -/
def signalHandler : List LogStep := (LogCall.log .INFO sigintMessage).code ++ [.writePipe]

/-- The main thread from `set_up_signal_handling` on, with some calls to make. -/
def mainThread (g : Logging) (calls : List LogCall) : Thread Shared LogStep where
  shared := ⟨g, 0⟩
  code := calls.flatMap LogCall.code
  handler := none

/-- **The states that the handler can interrupt**: nobody owns the registry, and no worker's mutex
    is held. -/
structure Interruptible (s : Shared) : Prop where
  registry : s.logging.mutex.owner = none
  workers : ∀ e ∈ s.logging.workers, e.2.holder = none

/-! ### What the steps change -/

namespace Logging

/-- Changing a worker changes what is found under its name. -/
theorem lookup_update (g : Logging) (name : Bytes) (f : Worker → Worker) :
    (g.update name f).workers.lookup name = (g.workers.lookup name).map f := by
  show (g.workers.map _).lookup name = _
  induction g.workers with
  | nil => rfl
  | cons e es ih =>
    obtain ⟨n, w⟩ := e
    by_cases hn : n = name
    · simp [hn]
    · have hbeq : (name == n) = false := beq_eq_false_iff_ne.mpr (Ne.symm hn)
      simp only [List.map_cons, if_neg hn, List.lookup_cons, hbeq, ih]

/-- The texts have nothing to do with the workers. -/
theorem update_write (g : Logging) (name name' text : Bytes) (f : Worker → Worker) :
    (g.update name f).write name' text = (g.write name' text).update name f := rfl

/-- The clock does not depend on the workers. -/
theorem update_logTime (g : Logging) (name name' : Bytes) (f : Worker → Worker) :
    (g.update name f).logTime name' = (g.logTime name').update name f := rfl

/-- Two changes of a worker that have nothing to do with each other. -/
theorem update_comm {f f' : Worker → Worker} (h : ∀ w, f (f' w) = f' (f w)) (g : Logging)
    (name : Bytes) : (g.update name f).update name f' = (g.update name f').update name f := by
  unfold update
  simp only [List.map_map]
  congr 1
  refine List.map_congr_left fun e _ => ?_
  by_cases he : e.1 = name
  · simp [he, h]
  · simp [he]

/-- Of two holders of a mutex the second counts. -/
theorem setHolder_setHolder (g : Logging) (name : Bytes) (holder holder' : Option Context) :
    (g.setHolder name holder).setHolder name holder' = g.setHolder name holder' := by
  unfold setHolder update
  rw [List.map_map]
  congr 1
  refine List.map_congr_left fun e _ => ?_
  by_cases he : e.1 = name
  · simp [he]
  · simp [he]

/-- Giving back a mutex that nobody holds. -/
theorem setHolder_none {g : Logging} (h : ∀ e ∈ g.workers, e.2.holder = none) (name : Bytes) :
    g.setHolder name none = g := by
  have hmap : g.workers.map (fun e => if e.1 = name then (e.1, { e.2 with holder := none }) else e)
      = g.workers := by
    refine (List.map_congr_left fun e he => ?_).trans (List.map_id _)
    have hsame : ({ e.2 with holder := none } : Worker) = e.2 := by rw [← h e he]
    rw [hsame]
    simp
  unfold setHolder update
  rw [hmap]

@[simp] theorem logTo_workers (g : Logging) (name : Bytes) (level : LogLevel) (msg : Bytes) :
    (g.logTo name level msg).workers = g.workers := by
  unfold logTo
  split
  · rfl
  · split <;> rfl

@[simp] theorem logTo_mutex (g : Logging) (name : Bytes) (level : LogLevel) (msg : Bytes) :
    (g.logTo name level msg).mutex = g.mutex := by
  unfold logTo
  split
  · rfl
  · split <;> rfl

/-- A worker writes the same whoever holds its mutex. -/
theorem logTo_setHolder (g : Logging) (name : Bytes) (holder : Option Context) (level : LogLevel)
    (msg : Bytes) :
    (g.setHolder name holder).logTo name level msg
      = (g.logTo name level msg).setHolder name holder := by
  unfold logTo setHolder
  rw [lookup_update]
  cases g.workers.lookup name with
  | none => rfl
  | some worker =>
    dsimp only [Option.map_some]
    split <;> rfl

/-- So it does when its level is changed. -/
theorem changeLevel_setHolder (g : Logging) (name : Bytes) (holder : Option Context)
    (level : LogLevel) :
    (g.setHolder name holder).changeLevel name level
      = (g.changeLevel name level).setHolder name holder := by
  unfold changeLevel setHolder
  rw [lookup_update]
  cases g.workers.lookup name with
  | none => rfl
  | some worker =>
    dsimp only [Option.map_some]
    rw [update_logTime, update_write]
    refine update_comm ?_ _ name
    exact fun _ => rfl

/-- A change of the level leaves all mutexes free. -/
theorem changeLevel_holders {g : Logging} (h : ∀ e ∈ g.workers, e.2.holder = none) (name : Bytes)
    (level : LogLevel) : ∀ e ∈ (g.changeLevel name level).workers, e.2.holder = none := by
  unfold changeLevel
  cases g.workers.lookup name with
  | none => exact h
  | some worker =>
    intro e he
    obtain ⟨e', he', rfl⟩ := List.mem_map.mp he
    by_cases hname : e'.1 = name
    · rw [if_pos hname]
      exact h e' he'
    · rw [if_neg hname]
      exact h e' he'

/-- Nor does the mutex of the registry matter. -/
theorem logTo_setMutex (g : Logging) (mutex : SharedMutex) (name : Bytes) (level : LogLevel)
    (msg : Bytes) :
    ({ g with mutex } : Logging).logTo name level msg = { g.logTo name level msg with mutex } := by
  unfold logTo
  dsimp only
  cases g.workers.lookup name with
  | none => rfl
  | some worker =>
    dsimp only
    split <;> rfl

theorem changeLevel_setMutex (g : Logging) (mutex : SharedMutex) (name : Bytes)
    (level : LogLevel) :
    ({ g with mutex } : Logging).changeLevel name level
      = { g.changeLevel name level with mutex } := by
  unfold changeLevel
  dsimp only
  cases g.workers.lookup name with
  | none => rfl
  | some worker => rfl

theorem changeLevel_mutex (g : Logging) (name : Bytes) (level : LogLevel) :
    (g.changeLevel name level).mutex = g.mutex := by
  unfold changeLevel
  cases g.workers.lookup name with
  | none => rfl
  | some worker => rfl

theorem tryEmplace_setMutex (g : Logging) (mutex : SharedMutex) (name : Bytes)
    (level : LogLevel) :
    ({ g with mutex } : Logging).tryEmplace name level
      = { g.tryEmplace name level with mutex } := by
  unfold tryEmplace
  show (if (g.workers.lookup name).isSome = true then _ else _) = _
  split <;> rfl

theorem tryEmplace_mutex (g : Logging) (name : Bytes) (level : LogLevel) :
    (g.tryEmplace name level).mutex = g.mutex := by
  unfold tryEmplace
  split <;> rfl

end Logging

/-! ### Calls with nothing in between -/

/-- No worker's mutex is held in a state that the handler can interrupt. -/
theorem held_eq_false {s : Shared} (h : Interruptible s) (name : Bytes) : s.held name = false := by
  unfold Shared.held
  rw [List.any_eq_false]
  intro e he
  rw [h.workers e he]
  simp

/-- What a worker writes leaves the state so. -/
theorem Interruptible.logTo {s : Shared} (h : Interruptible s) (name : Bytes) (level : LogLevel)
    (msg : Bytes) : Interruptible (s.onLogging (·.logTo name level msg)) := by
  refine ⟨?_, ?_⟩
  · show (s.logging.logTo name level msg).mutex.owner = none
    rw [Logging.logTo_mutex]
    exact h.registry
  · show ∀ e ∈ (s.logging.logTo name level msg).workers, e.2.holder = none
    rw [Logging.logTo_workers]
    exact h.workers

/-- A shared lock is given where nobody has the exclusive one. -/
theorem exec_lockShared {s : Shared} (h : s.logging.mutex.owner = none) (c : Context) :
    loggerMachine.exec c .lockShared s = some ([], s.takeShared c) := by
  show (if s.logging.mutex.owner.isSome = true then none else _) = _
  rw [h]
  rfl

/-- A worker's mutex is given where it is free. -/
theorem exec_lockWorker {s : Shared} {name : Bytes} (h : s.held name = false) (c : Context) :
    loggerMachine.exec c (.lockWorker name) s
      = some ([], s.onLogging (·.setHolder name (some c))) := by
  show (if s.held name = true then none else _) = _
  rw [h]
  rfl

/-- A worker's mutex is waited for where it is held, also by the one who asks. -/
theorem exec_lockWorker_held {s : Shared} {name : Bytes} (h : s.held name = true) (c : Context) :
    loggerMachine.exec c (.lockWorker name) s = none := if_pos h

/-- One worker logs. -/
theorem completes_worker (c : Context) {s : Shared} (h : Interruptible s) (name : Bytes)
    (level : LogLevel) (msg : Bytes) :
    loggerMachine.Completes c s (workerLogCode level msg name)
      (s.onLogging (·.logTo name level msg)) := by
  refine .cons (exec_lockWorker (held_eq_false h name) c) (.cons rfl (.cons rfl ?_))
  have hsame : ((s.logging.setHolder name (some c)).logTo name level msg).setHolder name none
      = s.logging.logTo name level msg := by
    rw [Logging.logTo_setHolder, Logging.setHolder_setHolder]
    exact Logging.setHolder_none (h.logTo name level msg).workers name
  have hend : (((s.onLogging (·.setHolder name (some c))).onLogging (·.logTo name level msg)
      ).onLogging (·.setHolder name none)) = s.onLogging (·.logTo name level msg) :=
    congrArg (fun g => Shared.mk g s.pipe) hsame
  rw [← hend]
  exact .nil _

/-- All workers log, one after the other. -/
theorem completes_workers (c : Context) {s : Shared} (h : Interruptible s) (names : List Bytes)
    (level : LogLevel) (msg : Bytes) :
    loggerMachine.Completes c s (names.flatMap (workerLogCode level msg))
      (s.onLogging fun g => names.foldl (fun g name => g.logTo name level msg) g) := by
  induction names generalizing s with
  | nil => exact .nil s
  | cons name names ih =>
    rw [List.flatMap_cons]
    exact (completes_worker c h name level msg).append (ih (h.logTo name level msg))

theorem log_setMutex (g : Logging) (mutex : SharedMutex) (level : LogLevel) (msg : Bytes) :
    ({ g with mutex } : Logging).log level msg = { g.log level msg with mutex } := by
  unfold Logging.log
  show (g.workers.map Prod.fst).foldl _ _ = _
  generalize g.workers.map Prod.fst = names
  induction names generalizing g with
  | nil => rfl
  | cons name names ih =>
    rw [List.foldl_cons, List.foldl_cons, Logging.logTo_setMutex]
    exact ih _

theorem log_mutex (g : Logging) (level : LogLevel) (msg : Bytes) :
    (g.log level msg).mutex = g.mutex := by
  have h := log_setMutex g g.mutex level msg
  rw [h]

/-- What the workers do has nothing to do with the mutex of the registry. -/
theorem release_log_take (s : Shared) (c : Context) (level : LogLevel) (msg : Bytes) :
    ((s.takeShared c).onLogging (·.log level msg)).releaseShared c
      = s.onLogging (·.log level msg) := by
  simp only [Shared.releaseShared, Shared.setMutex, Shared.onLogging, Shared.takeShared,
    log_setMutex, List.erase_cons_head]
  show Shared.mk { s.logging.log level msg with mutex := s.logging.mutex } s.pipe = _
  rw [← log_mutex s.logging level msg]

/-- **A `LOG`** does what `Logging.log` does, wherever the handler may interrupt. -/
theorem completes_log (c : Context) {s : Shared} (h : Interruptible s) (level : LogLevel)
    (msg : Bytes) :
    loggerMachine.Completes c s (LogCall.log level msg).code (s.onLogging (·.log level msg)) := by
  have htaken : Interruptible (s.takeShared c) := ⟨h.registry, h.workers⟩
  refine .cons (exec_lockShared h.registry c) (.cons rfl ?_)
  refine (completes_workers c htaken _ level msg).append (Machine.completes_one ?_)
  exact congrArg (fun s' => some ([], s')) (release_log_take s c level msg)

/-- What a call does to the logger; `setLevel` of a sink that is not there throws. -/
def LogCall.run (call : LogCall) (g : Logging) : Logging :=
  match call with
  | log level msg => g.log level msg
  | addWorker name level => g.addWorker name level
  | setLevel name level => match g.setLevel name level with
    | .ok g' => g'
    | .error _ => g
  | removeWorker name => g.removeWorker name

/-- The registry is locked, changed and unlocked. -/
theorem completes_locked (c : Context) {s : Shared} (h : Interruptible s)
    (hreaders : s.logging.mutex.readers = []) {code : List LogStep} {f : Logging → Logging}
    (hcode : ∀ mutex, loggerMachine.Completes c (s.setMutex mutex) code
      ((s.onLogging f).setMutex mutex)) (hmutex : (f s.logging).mutex = s.logging.mutex) :
    loggerMachine.Completes c s (.lock :: code ++ [.unlock]) (s.onLogging f) := by
  let mutex := s.logging.mutex
  have hlock : execLogStep c .lock s = some ([], s.setMutex { mutex with owner := some c }) := by
    refine if_neg ?_
    rw [h.registry, hreaders]
    simp
  refine .cons hlock ((hcode _).append (Machine.completes_one ?_))
  refine congrArg (fun s' => some ([], s')) ?_
  show Shared.mk { f s.logging with mutex := { mutex with owner := none } } s.pipe = _
  -- Nobody owned the registry before, so unlocking it puts its mutex back.
  have hback : { mutex with owner := none } = (f s.logging).mutex := by
    rw [hmutex, ← h.registry]
  rw [hback]
  rfl

/-- A change of the level comes to its end, with the worker's mutex free again. -/
theorem completes_changeLevel (c : Context) {s : Shared} (h : Interruptible s) (name : Bytes)
    (level : LogLevel) (mutex : SharedMutex) :
    loggerMachine.Completes c (s.setMutex mutex)
      [.lockWorker name, .changeLevel name level, .unlockWorker name]
      ((s.onLogging (·.changeLevel name level)).setMutex mutex) := by
  have hlock := @exec_lockWorker (s.setMutex mutex) name (held_eq_false h name) c
  -- The holder is set, the level changed and the holder cleared: in effect the level is changed.
  have hsame : ((s.logging.setHolder name (some c)).changeLevel name level).setHolder name none
      = s.logging.changeLevel name level := by
    rw [Logging.changeLevel_setHolder, Logging.setHolder_setHolder]
    exact Logging.setHolder_none (Logging.changeLevel_holders h.workers name level) name
  have hend : (((s.setMutex mutex).onLogging (·.setHolder name (some c))).onLogging
      (·.changeLevel name level)).onLogging (·.setHolder name none)
        = (s.onLogging (·.changeLevel name level)).setMutex mutex := by
    have hmutex := Logging.changeLevel_setMutex (s.logging.setHolder name (some c)) mutex name level
    show Shared.mk ((Logging.changeLevel { s.logging.setHolder name (some c) with mutex }
      name level).setHolder name none) s.pipe = _
    rw [hmutex]
    exact congrArg (fun g => Shared.mk { g with mutex } s.pipe) hsame
  rw [← hend]
  exact .cons hlock (.cons rfl (.cons rfl (.nil _)))

/-- **Every call** of the logger does what its operation does, when nothing comes between and no
    lock is held. -/
theorem LogCall.completes (c : Context) (call : LogCall) {s : Shared} (h : Interruptible s)
    (hreaders : s.logging.mutex.readers = []) :
    loggerMachine.Completes c s call.code (s.onLogging call.run) := by
  cases call with
  | log level msg => exact completes_log c h level msg
  | addWorker name level =>
    refine @completes_locked c s h hreaders [_, _] _ (fun mutex => ?_)
      (Logging.tryEmplace_mutex _ name level)
    refine .cons rfl (Machine.completes_one ?_)
    refine congrArg (fun s' => some ([], s')) ?_
    exact congrArg (fun g => Shared.mk g s.pipe)
      (Logging.tryEmplace_setMutex (s.logging.logOpeningMessage name level) mutex name level)
  | setLevel name level =>
    have hrun : (LogCall.setLevel name level).run s.logging = s.logging.changeLevel name level := by
      show (match s.logging.setLevel name level with | .ok g' => g' | .error _ => s.logging) = _
      unfold Logging.setLevel Logging.changeLevel
      cases s.logging.workers.lookup name with
      | none => rfl
      | some worker => rfl
    have hend : s.onLogging (LogCall.setLevel name level).run
        = s.onLogging (·.changeLevel name level) := congrArg (fun g => Shared.mk g s.pipe) hrun
    rw [hend]
    refine @completes_locked c s h hreaders [_] _ (fun mutex => ?_)
      (Logging.changeLevel_mutex s.logging name level)
    cases hworker : s.logging.workers.lookup name with
    | none =>
      -- `at` throws, and nothing is changed.
      have hat : execLogStep c (.at name level) (s.setMutex mutex)
          = some ([], s.setMutex mutex) := by
        show (if (s.logging.workers.lookup name).isSome = true then _ else _) = _
        rw [hworker]
        rfl
      have hnone : s.logging.changeLevel name level = s.logging := by
        unfold Logging.changeLevel
        rw [hworker]
      have hsame : s.onLogging (·.changeLevel name level) = s :=
        congrArg (fun g => Shared.mk g s.pipe) hnone
      rw [hsame]
      exact Machine.completes_one hat
    | some worker =>
      have hat : execLogStep c (.at name level) (s.setMutex mutex)
          = some ([.lockWorker name, .changeLevel name level, .unlockWorker name],
            s.setMutex mutex) := by
        show (if (s.logging.workers.lookup name).isSome = true then _ else _) = _
        rw [hworker]
        rfl
      exact .cons hat (completes_changeLevel c h name level mutex)
  | removeWorker name =>
    exact @completes_locked c s h hreaders [_] _ (fun mutex => Machine.completes_one rfl) rfl

/-! ### The handler -/

/-- **The handler** logs its line and writes to the pipe. -/
theorem signalHandler_completes {s : Shared} (h : Interruptible s) :
    loggerMachine.Completes .handler s signalHandler
      { s.onLogging (·.log .INFO sigintMessage) with pipe := s.pipe + 1 } :=
  (completes_log .handler h .INFO sigintMessage).append (Machine.completes_one rfl)

/-- Taking one worker's mutex does not change whether another's is held. -/
theorem held_setHolder {s : Shared} {name name' : Bytes} (hne : name' ≠ name)
    (holder : Option Context) :
    (s.onLogging (·.setHolder name holder)).held name' = s.held name' := by
  show ((s.logging.workers.map _).any _) = s.logging.workers.any _
  rw [List.any_map]
  congr 1
  funext e
  by_cases he : e.1 = name
  · have he' : e.1 ≠ name' := fun h => hne (h.symm.trans he)
    simp [he, Ne.symm hne]
  · simp [he]

/-- Whose mutex is held does not depend on what has been written. -/
theorem held_logTo (s : Shared) (name name' : Bytes) (level : LogLevel) (msg : Bytes) :
    (s.onLogging (·.logTo name level msg)).held name' = s.held name' := by
  show (s.logging.logTo name level msg).workers.any _ = _
  rw [Logging.logTo_workers]
  rfl

/-- What logs to some workers and completes finds their mutexes free. -/
theorem held_of_completes {c : Context} {level : LogLevel} {msg : Bytes} {names : List Bytes}
    {rest : List LogStep} {s s' : Shared}
    (h : loggerMachine.Completes c s (names.flatMap (workerLogCode level msg) ++ rest) s') :
    ∀ name ∈ names, s.held name = false := by
  induction names generalizing s with
  | nil => simp
  | cons name names ih =>
    rw [List.flatMap_cons, List.append_assoc] at h
    -- The first lock of the code was taken, so it was free.
    have hfree : s.held name = false := by
      by_contra hheld
      exact h.not_waiting (exec_lockWorker_held (Bool.eq_true_of_not_eq_false hheld) c)
    have hrest := ih (((h.tail (exec_lockWorker hfree c)).tail rfl).tail rfl)
    intro name' hmem
    by_cases hname : name' = name
    · rw [hname]
      exact hfree
    · -- The mutex that was taken before is another one, and has been given back.
      have hother := hrest name' ((List.mem_cons.mp hmem).resolve_left hname)
      rw [held_setHolder hname, held_logTo, held_setHolder hname] at hother
      exact hother

/-- **When the handler comes to its end**: exactly from the states that it can interrupt. -/
theorem signalHandler_completes_iff (s : Shared) :
    (∃ s', loggerMachine.Completes .handler s signalHandler s') ↔ Interruptible s := by
  constructor
  · -- A handler that completes has waited neither for the registry nor for a worker.
    rintro ⟨s', h⟩
    have hregistry : s.logging.mutex.owner = none := by
      by_contra howner
      exact h.not_waiting (if_pos (Option.isSome_iff_ne_none.mpr howner))
    have hfree := held_of_completes ((h.tail (exec_lockShared hregistry .handler)).tail rfl)
    refine ⟨hregistry, fun e he => ?_⟩
    have hheld := hfree e.1 (List.mem_map_of_mem he)
    unfold Shared.held at hheld
    rw [List.any_eq_false] at hheld
    have hfalse := hheld e he
    simpa using hfalse
  · exact fun h => ⟨_, signalHandler_completes h⟩

/-- **SIGINT always reaches the pipe** in a run in which each signal arrives in a state that the
    handler can interrupt: wherever the run has come to, the handler does not wait, and if it is
    active it comes to its end with a byte in the pipe. -/
theorem sigint_reaches_pipe {g : Logging} {calls : List LogCall} {t : Thread Shared LogStep}
    (h : loggerMachine.Reaches signalHandler Interruptible (mainThread g calls) t) :
    ¬ loggerMachine.Waiting t ∧
      ∀ code, t.handler = some code →
        ∃ s', loggerMachine.Completes .handler t.shared code s' ∧ 0 < s'.pipe := by
  have hcompletes : ∀ s, Interruptible s →
      ∃ s', loggerMachine.Completes .handler s signalHandler s' ∧ 0 < s'.pipe :=
    fun s hs => ⟨_, signalHandler_completes hs, Nat.succ_pos _⟩
  refine ⟨h.not_waiting hcompletes rfl, fun code hcode => ?_⟩
  exact h.completes hcompletes rfl hcode

/-- The logger as `main` sets it up. -/
def mainLogging : Logging :=
  (({ workers := [], outputs := fun _ => [], clock := [] } : Logging).addWorker
    (bytes "log/info.log") .INFO).addWorker (bytes "log/trace.log") .TRACE

/-- What the loop of `HTTPServer::run` logs in front of `poll`. -/
def blockingOnPoll : LogCall := .log .INFO (Logger.message .INFO (bytes "HTTPServer.cpp") 114
  (bytes "run") (bytes "Blocking on poll..."))

/-- A signal in front of that line. -/
theorem sigint_reaches_pipe_before :
    ∃ s', loggerMachine.Completes .handler ⟨mainLogging, 0⟩ signalHandler s' ∧ 0 < s'.pipe := by
  have hfree : Interruptible ⟨mainLogging, 0⟩ := ⟨rfl, by decide +kernel⟩
  have hreach : loggerMachine.Reaches signalHandler Interruptible
      (mainThread mainLogging [blockingOnPoll])
      ⟨⟨mainLogging, 0⟩, [blockingOnPoll].flatMap LogCall.code, some signalHandler⟩ :=
    .signal .start hfree
  exact (sigint_reaches_pipe hreach).2 signalHandler rfl

/-- A signal while that line is written to the first of the two files: the handler waits for the
    mutex that the thread it has interrupted holds, and nothing has been written to the pipe. -/
theorem sigint_reaches_pipe_counterexample :
    ∃ t, loggerMachine.Reaches signalHandler (fun _ => True)
        (mainThread mainLogging [blockingOnPoll]) t ∧
      loggerMachine.Waiting t ∧ t.shared.pipe = 0 ∧
      (t.shared.logging.workers.lookup (bytes "log/info.log")).bind Worker.holder
        = some .thread := by
  let info := bytes "log/info.log"
  let trace := bytes "log/trace.log"
  let msg := Logger.message .INFO (bytes "HTTPServer.cpp") 114 (bytes "run")
    (bytes "Blocking on poll...")
  let reading := (Shared.mk mainLogging 0).takeShared .thread
  let writing := reading.onLogging (·.setHolder info (some .thread))
  have hfree : reading.held info = false := by decide +kernel
  have hheld : (writing.takeShared .handler).held info = true := by decide +kernel
  -- The thread is about to write to the first file, with its mutex in hand.
  have hread : loggerMachine.Reaches signalHandler (fun _ => True)
      (mainThread mainLogging [blockingOnPoll])
      ⟨reading, [] ++ [.eachWorker .INFO msg, .unlockShared], none⟩ :=
    .step .start (exec_lockShared rfl .thread)
  have heach : loggerMachine.Reaches signalHandler (fun _ => True)
      (mainThread mainLogging [blockingOnPoll])
      ⟨reading, (workerLogCode .INFO msg info ++ workerLogCode .INFO msg trace)
        ++ [.unlockShared], none⟩ := .step hread rfl
  have hwrite := heach.step (exec_lockWorker hfree .thread)
  -- The handler comes as far as that mutex.
  have hsignal := hwrite.signal trivial
  have hshared : loggerMachine.Reaches signalHandler (fun _ => True)
      (mainThread mainLogging [blockingOnPoll]) ⟨writing.takeShared .handler, _,
        some ([] ++ [.eachWorker .INFO sigintMessage, .unlockShared, .writePipe])⟩ :=
    .handle hsignal (exec_lockShared rfl .handler)
  have hhandler : loggerMachine.Reaches signalHandler (fun _ => True)
      (mainThread mainLogging [blockingOnPoll]) ⟨writing.takeShared .handler, _,
        some ((workerLogCode .INFO sigintMessage info ++ workerLogCode .INFO sigintMessage trace)
          ++ [.unlockShared, .writePipe])⟩ := .handle hshared rfl
  refine ⟨_, hhandler, ⟨.lockWorker info, _, rfl, exec_lockWorker_held hheld _⟩, rfl, ?_⟩
  decide +kernel

end Evaluation
