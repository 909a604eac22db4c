import Evaluation.Lib.Critical
import Evaluation.Lib.Merge
import Evaluation.LogHistory

namespace Evaluation

open Lib Logging

/-!
# The log under signals

SIGINT may come between the calls of the logger, and in the middle of a `LOG`, between one worker
and the next.  So the sinks need not agree on when it came; but each by itself has been given the
calls one after the other, with the handler's `LOG`s in between, and each of them whole and once.

* `Delivered` — what the sinks have been given, each by itself;
* `Stage` — the thread outside of its critical sections;
* `stage_step` — from one such state it comes to the next;
* `sigint_delivery` — what the sinks hold in a run, wherever no lock is held that the handler needs.
-/

/-- The `LOG` of the handler. -/
def sigintCall : LoggerCall :=
  .LOG .INFO (bytes "main.cpp") 59 (bytes "signal_handler")
    (bytes "SIGINT received, sending shutdown to HTTP server...")

/-- What the handler leaves. -/
def Shared.sigint (s : Shared) : Shared :=
  { s.onLogging (·.log .INFO sigintMessage) with pipe := s.pipe + 1 }

/-- **What the sinks have been given** since `g₀`: first `before`, and then, sink by sink, `done`
    merged with the `LOG`s of the handler, of which there have been as many as there are bytes in
    the pipe. -/
def Delivered (g₀ : Logging) (before : List LoggerCall) (done : Bytes → List LoggerCall)
    (s : Shared) : Prop :=
  ∃ hist : Bytes → List LoggerCall,
    (∀ name, Merges (done name) (List.replicate s.pipe sigintCall) (hist name)) ∧
      KeepsTo g₀ s.logging fun name => sinkAfter name (before ++ hist name)

/-! ### What the calls and the handler deliver -/

/-- The last call of a history is the last step of a sink. -/
theorem sinkAfter_append_concat (name : Bytes) (before hist : List LoggerCall)
    (call : LoggerCall) : sinkAfter name (before ++ (hist ++ [call]))
      = (sinkAfter name (before ++ hist)).step name call.toWorkers := by
  rw [← List.append_assoc, sinkAfter_concat]

/-- One worker writes a message; the others have nothing to do with it. -/
theorem KeepsTo.logTo {g₀ g : Logging} {sinks : Bytes → Sink} (h : KeepsTo g₀ g sinks)
    (name : Bytes) (level : LogLevel) (msg : Bytes) :
    KeepsTo g₀ (g.logTo name level msg) fun other =>
      if other = name then (sinks other).step other (.log level msg) else sinks other where
  nodup := by
    rw [logTo_workers]
    exact h.nodup
  clock := (clock_logTo g name level msg).trans h.clock
  sink := by
    intro other
    have hlevel := (h.sink other).level
    have hlookup' : (g.logTo name level msg).workers.lookup other = g.workers.lookup other := by
      rw [logTo_workers]
    rcases eq_or_ne other name with rfl | hne
    · -- The sink that the LOG names: it writes the message, or its level keeps the message out.
      rw [if_pos rfl]
      by_cases henabled : ∃ worker, g.workers.lookup other = some worker ∧
          level.toNat ≤ worker.level.toNat
      · obtain ⟨worker, hlookup, hle⟩ := henabled
        rw [hlookup] at hlevel
        rw [Sink.step_log hlevel.symm hle, hlevel.symm]
        apply (h.sink other).concat (headD_mem h.clock) List.mem_cons_self
        · rw [hlookup', hlookup]
        · rw [logTo_eq hlookup hle]
          simp only [outputs_write, outputs_logTime, LogEntry.text, List.append_assoc]
      · have hsilent : ∀ worker, g.workers.lookup other = some worker →
            worker.level.toNat < level.toNat := by
          intro worker hlookup
          by_contra hle
          exact henabled ⟨worker, hlookup, Nat.not_lt.mp hle⟩
        rw [Sink.step_log_silent, logTo_eq_self_of_silent hsilent]
        · exact h.sink other
        · intro inForce hinForce
          rw [← hlevel] at hinForce
          obtain ⟨worker, hlookup, rfl⟩ := Option.map_eq_some_iff.mp hinForce
          exact hsilent worker hlookup
    · -- Another sink has the level and the outputs it had.
      rw [if_neg hne]
      exact (h.sink other).of_same hlookup' (outputs_logTo_of_ne hne g level msg)

section

variable {g₀ : Logging} {before : List LoggerCall} {s : Shared} {call : LoggerCall}

/-- A call of the thread, with nothing in between. -/
theorem Delivered.run {done : List LoggerCall} (h : Delivered g₀ before (fun _ => done) s)
    (call : LoggerCall) :
    Delivered g₀ before (fun _ => done ++ [call]) (s.onLogging call.toWorkers.run) := by
  obtain ⟨hist, hmerge, hkeeps⟩ := h
  refine ⟨fun name => hist name ++ [call], fun name => (hmerge name).left call, ?_⟩
  simp only [sinkAfter_append_concat]
  exact hkeeps.run call.toWorkers

variable {done : Bytes → List LoggerCall}

/-- The handler. -/
theorem Delivered.sigint (h : Delivered g₀ before done s) :
    Delivered g₀ before done s.sigint := by
  obtain ⟨hist, hmerge, hkeeps⟩ := h
  refine ⟨fun name => hist name ++ [sigintCall], fun name => ?_, ?_⟩
  · show Merges _ (List.replicate (s.pipe + 1) sigintCall) _
    rw [List.replicate_succ']
    exact (hmerge name).right sigintCall
  · simp only [sinkAfter_append_concat]
    exact hkeeps.log .INFO sigintMessage

/-- A message for one worker. -/
theorem Delivered.logTo {level : LogLevel} {msg : Bytes} (h : Delivered g₀ before done s)
    (hcall : call.toWorkers = .log level msg) (name : Bytes) :
    Delivered g₀ before (fun other => if other = name then done other ++ [call] else done other)
      (s.onLogging (·.logTo name level msg)) := by
  obtain ⟨hist, hmerge, hkeeps⟩ := h
  refine ⟨fun other => if other = name then hist other ++ [call] else hist other,
    fun other => ?_, ?_⟩
  · dsimp only
    split
    · exact (hmerge other).left call
    · exact hmerge other
  · -- The histories grow by the call at one name, and so do the sinks they amount to.
    have hlog := hkeeps.logTo name level msg
    have hsinks : (fun other => sinkAfter other (before ++
        if other = name then hist other ++ [call] else hist other))
        = fun other => if other = name then
            (sinkAfter other (before ++ hist other)).step other (.log level msg)
          else sinkAfter other (before ++ hist other) := by
      funext other
      split
      · rw [sinkAfter_append_concat, hcall]
      · rfl
    rw [hsinks]
    exact hlog

/-- A message is nothing to a sink that is not there. -/
theorem Delivered.unregistered {done : List LoggerCall} {level : LogLevel} {msg : Bytes}
    (h : Delivered g₀ before (fun _ => done) s) (hcall : call.toWorkers = .log level msg) :
    Delivered g₀ before (fun name =>
      if name ∈ s.logging.workers.map Prod.fst then done else done ++ [call]) s := by
  obtain ⟨hist, hmerge, hkeeps⟩ := h
  refine ⟨fun name => if name ∈ s.logging.workers.map Prod.fst then hist name
    else hist name ++ [call], fun name => ?_, hkeeps.nodup, hkeeps.clock, fun name => ?_⟩
  · dsimp only
    split
    · exact hmerge name
    · exact (hmerge name).left call
  · dsimp only
    split
    · exact hkeeps.sink name
    · rename_i hname
      -- An unregistered name has no level, and a sink without level takes in no LOG.
      have hlevel := (hkeeps.sink name).level
      rw [lookup_eq_none_iff_names.mpr hname] at hlevel
      rw [sinkAfter_append_concat, hcall, Sink.step_log_silent]
      · exact hkeeps.sink name
      · rw [← hlevel]
        exact nofun

end

/-! ### Critical sections -/

/-- The entries are those before and the new one. -/
theorem mem_insertWorker {name : Bytes} {worker : Worker} {es : List (Bytes × Worker)}
    {e : Bytes × Worker} (h : e ∈ insertWorker name worker es) : e = (name, worker) ∨ e ∈ es := by
  induction es with
  | nil => exact .inl (List.mem_singleton.mp h)
  | cons e' es ih =>
    rw [insertWorker] at h
    split at h
    · exact List.mem_cons.mp h
    · rcases List.mem_cons.mp h with rfl | h
      · exact .inr List.mem_cons_self
      · exact (ih h).imp_right (List.mem_cons_of_mem _)

/-- The steps behind the exclusive lock. -/
def LogStep.Inner : LogStep → Bool
  | .lockWorker _ | .unlockWorker _ | .openWorker _ _ | .tryEmplace _ _ | .at _ _
  | .changeLevel _ _ | .erase _ => true
  | _ => false

/-- They leave the mutex of the registry alone. -/
theorem exec_inner {c : Context} {i : LogStep} {new : List LogStep} {s s' : Shared}
    (hi : i.Inner = true) (h : loggerMachine.exec c i s = some (new, s')) :
    s'.logging.mutex = s.logging.mutex ∧ ∀ j ∈ new, j.Inner = true := by
  have h' : execLogStep c i s = some (new, s') := h
  -- Only these steps are inner ones; none of them takes or gives back the registry.
  cases i with
  | lockWorker name =>
    unfold execLogStep at h'
    dsimp only at h'
    split at h'
    · cases h'
    · cases h'
      exact ⟨rfl, by simp⟩
  | unlockWorker name =>
    cases h'
    exact ⟨rfl, by simp⟩
  | openWorker name level =>
    cases h'
    exact ⟨rfl, by simp⟩
  | tryEmplace name level =>
    cases h'
    exact ⟨tryEmplace_mutex _ name level, by simp⟩
  | «at» name level =>
    unfold execLogStep at h'
    dsimp only at h'
    split at h'
    · cases h'
      exact ⟨rfl, by simp [LogStep.Inner]⟩
    · cases h'
      exact ⟨rfl, by simp⟩
  | changeLevel name level =>
    cases h'
    exact ⟨changeLevel_mutex _ name level, by simp⟩
  | erase name =>
    cases h'
    exact ⟨rfl, by simp⟩
  | _ => cases hi

/-- **From the exclusive lock to its end** no signal comes. -/
theorem critical_of_completes {s t : Shared} {inner : List LogStep}
    (hinner : ∀ i ∈ inner, i.Inner = true) (howner : s.logging.mutex.owner ≠ none)
    (h : loggerMachine.Completes .thread s (inner ++ [.unlock]) t) :
    loggerMachine.Critical Interruptible s (inner ++ [.unlock]) t := by
  generalize hcode : inner ++ [LogStep.unlock] = code at h
  induction h generalizing inner with
  | nil => exact absurd hcode (by simp)
  | cons hexec h ih =>
    -- As long as the registry has an owner, the handler of the signal has to wait.
    have hclosed : ∀ {s : Shared}, s.logging.mutex.owner ≠ none → ¬ Interruptible s :=
      fun howner hfree => howner hfree.registry
    cases inner with
    | nil =>
      cases hcode
      cases hexec
      cases h
      exact .cons (hclosed howner) rfl (.nil _)
    | cons j inner =>
      obtain ⟨rfl, rfl⟩ := List.cons.inj hcode
      obtain ⟨hj, hinner⟩ := List.forall_mem_cons.mp hinner
      obtain ⟨hmutex, hnew⟩ := exec_inner hj hexec
      refine .cons (hclosed howner) hexec (ih ?_ ?_ (List.append_assoc ..))
      · -- An inner step leaves inner steps behind it, so the hypothesis holds of the rest as well.
        exact fun i hi => (List.mem_append.mp hi).elim (hnew i) (hinner i)
      · rw [hmutex]
        exact howner

/-! ### Outside of the critical sections -/

/-- The steps of some calls. -/
def codeOf (calls : List LoggerCall) : List LogStep :=
  (calls.map LoggerCall.toWorkers).flatMap LogCall.code

/-- **The thread outside of its critical sections**: between two calls, or in a `LOG`, where it has
    the registry as a reader, and some workers are still to write the message. -/
inductive Stage (g₀ : Logging) (before calls : List LoggerCall) : Shared → List LogStep → Prop where
  | between {s : Shared} {done rest : List LoggerCall} (hcalls : calls = done ++ rest)
      (hfree : Interruptible s) (hreaders : s.logging.mutex.readers = [])
      (h : Delivered g₀ before (fun _ => done) s) : Stage g₀ before calls s (codeOf rest)
  | reading {s : Shared} {done rest : List LoggerCall} {call : LoggerCall} {level : LogLevel}
      {msg : Bytes} (hcalls : calls = done ++ call :: rest)
      (hcall : call.toWorkers = .log level msg) (hfree : Interruptible s)
      (hreaders : s.logging.mutex.readers = [.thread])
      (h : Delivered g₀ before (fun _ => done) s) :
      Stage g₀ before calls s (.eachWorker level msg :: .unlockShared :: codeOf rest)
  | writing {s : Shared} {done rest : List LoggerCall} {call : LoggerCall} {level : LogLevel}
      {msg : Bytes} {names : List Bytes} (hcalls : calls = done ++ call :: rest)
      (hcall : call.toWorkers = .log level msg) (hfree : Interruptible s)
      (hreaders : s.logging.mutex.readers = [.thread])
      (hnames : names ⊆ s.logging.workers.map Prod.fst) (hnodup : names.Nodup)
      (h : Delivered g₀ before (fun name => if name ∈ names then done else done ++ [call]) s) :
      Stage g₀ before calls s
        (names.flatMap (workerLogCode level msg) ++ .unlockShared :: codeOf rest)

/-- A call leaves the locks as they were. -/
theorem Interruptible.run {s : Shared} (h : Interruptible s) (call : LogCall) :
    Interruptible (s.onLogging call.run) ∧
      (s.onLogging call.run).logging.mutex = s.logging.mutex := by
  -- Whatever the call is, the registry is as it was and every sink's mutex is free.
  have hmutex : (call.run s.logging).mutex = s.logging.mutex ∧
      ∀ e ∈ (call.run s.logging).workers, e.2.holder = none := by
    cases call with
    | log level msg =>
      refine ⟨log_mutex s.logging level msg, ?_⟩
      show ∀ e ∈ (s.logging.log level msg).workers, _
      rw [Logging.log, workers_foldl_logTo]
      exact h.workers
    | addWorker name level =>
      refine ⟨tryEmplace_mutex _ name level, ?_⟩
      show ∀ e ∈ (s.logging.addWorker name level).workers, _
      rw [workers_addWorker]
      split
      · exact h.workers
      · intro e he
        rcases mem_insertWorker he with rfl | he
        · rfl
        · exact h.workers e he
    | setLevel name level =>
      rw [run_setLevel]
      exact ⟨changeLevel_mutex _ name level, changeLevel_holders h.workers name level⟩
    | removeWorker name => exact ⟨rfl, fun e he => h.workers e (List.mem_of_mem_filter he)⟩
  refine ⟨⟨?_, hmutex.2⟩, hmutex.1⟩
  show (call.run s.logging).mutex.owner = none
  rw [hmutex.1]
  exact h.registry

section

variable {g₀ : Logging} {before calls : List LoggerCall} {s s' : Shared}

/-- Locking and unlocking the registry delivers nothing. -/
theorem Delivered.setMutex {done : Bytes → List LoggerCall} (h : Delivered g₀ before done s)
    (mutex : SharedMutex) : Delivered g₀ before done (s.setMutex mutex) := by
  obtain ⟨hist, hmerge, hkeeps⟩ := h
  refine ⟨hist, hmerge, hkeeps.nodup, hkeeps.clock, fun name => ?_⟩
  exact ⟨(hkeeps.sink name).level, (hkeeps.sink name).written⟩

/-- The handler comes between, and goes. -/
theorem Stage.sigint {code : List LogStep} (h : Stage g₀ before calls s code) :
    Stage g₀ before calls s.sigint code := by
  -- The handler's LOG ends with the locks as it found them.
  have hsame : ∀ {s : Shared}, Interruptible s → Interruptible s.sigint ∧
      s.sigint.logging.mutex = s.logging.mutex := by
    intro s hfree
    obtain ⟨hfree', hmutex⟩ := hfree.run (.log .INFO sigintMessage)
    exact ⟨⟨hfree'.registry, hfree'.workers⟩, hmutex⟩
  cases h with
  | between hcalls hfree hreaders h =>
    obtain ⟨hfree', hmutex⟩ := hsame hfree
    exact .between hcalls hfree' (by rw [hmutex, hreaders]) h.sigint
  | reading hcalls hcall hfree hreaders h =>
    obtain ⟨hfree', hmutex⟩ := hsame hfree
    exact .reading hcalls hcall hfree' (by rw [hmutex, hreaders]) h.sigint
  | writing hcalls hcall hfree hreaders hnames hnodup h =>
    obtain ⟨hfree', hmutex⟩ := hsame hfree
    refine .writing hcalls hcall hfree' (by rw [hmutex, hreaders]) ?_ hnodup h.sigint
    show _ ⊆ (s.logging.log .INFO sigintMessage).workers.map Prod.fst
    rw [Logging.log, workers_foldl_logTo]
    exact hnames

/-- A call is a `LOG`, or has the registry for itself. -/
theorem LogCall.code_cases (call : LogCall) : (∃ level msg, call = .log level msg) ∨
    ∃ inner, (∀ i ∈ inner, LogStep.Inner i = true) ∧ call.code = .lock :: (inner ++ [.unlock]) := by
  cases call with
  | log level msg => exact .inl ⟨level, msg, rfl⟩
  | addWorker name level =>
    exact .inr ⟨[.openWorker name level, .tryEmplace name level], by simp [LogStep.Inner], rfl⟩
  | setLevel name level => exact .inr ⟨[.at name level], by simp [LogStep.Inner], rfl⟩
  | removeWorker name => exact .inr ⟨[.erase name], by simp [LogStep.Inner], rfl⟩

/-- Between two calls. -/
theorem stage_step_between {done rest : List LoggerCall} {i : LogStep} {new code : List LogStep}
    (hcode : i :: code = codeOf rest) (hcalls : calls = done ++ rest) (hfree : Interruptible s)
    (hreaders : s.logging.mutex.readers = []) (h : Delivered g₀ before (fun _ => done) s)
    (hexec : loggerMachine.exec .thread i s = some (new, s')) :
    loggerMachine.Nears Interruptible (Stage g₀ before calls) s' (new ++ code) := by
  cases rest with
  | nil => cases hcode
  | cons call rest =>
    have hhead : codeOf (call :: rest) = call.toWorkers.code ++ codeOf rest := rfl
    rw [hhead] at hcode
    obtain ⟨level, msg, hcall⟩ | ⟨inner, hinner, hlocked⟩ := call.toWorkers.code_cases
    · -- A LOG: its first step takes the shared lock.
      rw [hcall] at hcode
      cases hcode
      cases (exec_lockShared hfree.registry .thread).symm.trans hexec
      refine .of_self (.reading hcalls hcall ⟨hfree.registry, hfree.workers⟩ ?_ (h.setMutex _))
      show Context.thread :: s.logging.mutex.readers = _
      rw [hreaders]
    · -- The call has the registry for itself up to its end.
      have hrun := LogCall.completes .thread call.toWorkers hfree hreaders
      rw [hlocked] at hcode hrun
      cases hcode
      have hrest := hrun.tail hexec
      have howner : new = [] ∧ s'.logging.mutex.owner ≠ none := by
        have hlock : execLogStep .thread .lock s = some (new, s') := hexec
        unfold execLogStep at hlock
        dsimp only at hlock
        split at hlock
        · cases hlock
        · cases hlock
          exact ⟨rfl, nofun⟩
      obtain ⟨rfl, howner⟩ := howner
      obtain ⟨hfree', hmutex⟩ := hfree.run call.toWorkers
      rw [List.nil_append]
      refine .of_critical (critical_of_completes hinner howner hrest) ?_
      refine .between ?_ hfree' (by rw [hmutex, hreaders]) (h.run call)
      rw [hcalls, List.append_assoc, List.singleton_append]

/-- A worker that is to write has a mutex that can be held. -/
theorem not_interruptible_setHolder {name : Bytes} {g : Logging}
    (h : name ∈ g.workers.map Prod.fst) (hg : s.logging.workers = (g.setHolder name
      (some .thread)).workers) : ¬ Interruptible s := by
  intro hfree
  obtain ⟨e, he, rfl⟩ := List.mem_map.mp h
  have hheld : (e.1, { e.2 with holder := some .thread }) ∈ s.logging.workers := by
    rw [hg]
    refine List.mem_map.mpr ⟨e, he, ?_⟩
    rw [if_pos rfl]
  cases hfree.workers _ hheld

/-- In a `LOG`, with some workers still to write. -/
theorem stage_step_writing {done rest : List LoggerCall} {call : LoggerCall} {level : LogLevel}
    {msg : Bytes} {names : List Bytes} {i : LogStep} {new code : List LogStep}
    (hcode : i :: code = names.flatMap (workerLogCode level msg) ++ .unlockShared :: codeOf rest)
    (hcalls : calls = done ++ call :: rest) (hcall : call.toWorkers = .log level msg)
    (hfree : Interruptible s) (hreaders : s.logging.mutex.readers = [.thread])
    (hnames : names ⊆ s.logging.workers.map Prod.fst) (hnodup : names.Nodup)
    (h : Delivered g₀ before (fun name => if name ∈ names then done else done ++ [call]) s)
    (hexec : loggerMachine.exec .thread i s = some (new, s')) :
    loggerMachine.Nears Interruptible (Stage g₀ before calls) s' (new ++ code) := by
  cases names with
  | nil =>
    cases hcode
    cases hexec
    have hdone : Delivered g₀ before (fun _ => done ++ [call]) s := by simpa using h
    refine .of_self (.between ?_ ⟨hfree.registry, hfree.workers⟩ ?_ (hdone.setMutex _))
    · rw [hcalls, List.append_assoc, List.singleton_append]
    · show s.logging.mutex.readers.erase .thread = []
      rw [hreaders]
      rfl
  | cons name names =>
    obtain ⟨hname, hnames⟩ := List.cons_subset.mp hnames
    obtain ⟨hnew, hnodup⟩ := List.nodup_cons.mp hnodup
    cases hcode
    cases (exec_lockWorker (held_eq_false hfree name) .thread).symm.trans hexec
    -- Up to the end of its turn the worker holds its mutex.
    have hturn : ∀ target, loggerMachine.Completes .thread
        (s.onLogging (·.setHolder name (some .thread))) [.logTo name level msg, .unlockWorker name]
        target → loggerMachine.Critical Interruptible
        (s.onLogging (·.setHolder name (some .thread))) [.logTo name level msg, .unlockWorker name]
        target := by
      intro target hrun
      cases hrun with
      | cons hlog hrun =>
        cases hlog
        cases hrun with
        | cons hunlock hrun =>
          cases hunlock
          cases hrun
          refine .cons (not_interruptible_setHolder hname rfl) rfl (.cons ?_ rfl (.nil _))
          exact not_interruptible_setHolder hname (logTo_workers ..)
    have hrun := hturn _ ((completes_worker .thread hfree name level msg).tail hexec)
    show loggerMachine.Nears _ _ _ ([.logTo name level msg, .unlockWorker name]
      ++ (names.flatMap (workerLogCode level msg) ++ .unlockShared :: codeOf rest))
    refine .of_critical hrun (.writing hcalls hcall (hfree.logTo name level msg) ?_ ?_ hnodup ?_)
    · show (s.logging.logTo name level msg).mutex.readers = _
      rw [logTo_mutex, hreaders]
    · show names ⊆ (s.logging.logTo name level msg).workers.map Prod.fst
      rw [logTo_workers]
      exact hnames
    · have hnext := h.logTo hcall name
      have hdone : (fun other => if other = name
            then (if other ∈ name :: names then done else done ++ [call]) ++ [call]
            else if other ∈ name :: names then done else done ++ [call])
          = fun other => if other ∈ names then done else done ++ [call] := by
        funext other
        rcases eq_or_ne other name with rfl | hne
        · simp [hnew]
        · simp [hne]
      rwa [hdone] at hnext

/-- **A step of the thread**, and what is left of the critical section that it begins. -/
theorem stage_step {i : LogStep} {new code : List LogStep}
    (h : Stage g₀ before calls s (i :: code))
    (hexec : loggerMachine.exec .thread i s = some (new, s')) :
    loggerMachine.Nears Interruptible (Stage g₀ before calls) s' (new ++ code) := by
  generalize hcode : i :: code = code' at h
  cases h with
  | between hcalls hfree hreaders h => exact stage_step_between hcode hcalls hfree hreaders h hexec
  | reading hcalls hcall hfree hreaders h =>
    cases hcode
    cases hexec
    have hnodup : (s.logging.workers.map Prod.fst).Nodup := by
      obtain ⟨_, _, hkeeps⟩ := h
      exact hkeeps.nodup
    exact .of_self (.writing hcalls hcall hfree hreaders (List.Subset.refl _) hnodup
      (h.unregistered hcall))
  | writing hcalls hcall hfree hreaders hnames hnodup h =>
    exact stage_step_writing hcode hcalls hcall hfree hreaders hnames hnodup h hexec

end

/-! ### Whole runs -/

/-- **Every sink has been given** the first `k` calls or one more, merged with the `LOG`s of the
    handler. -/
def TakenIn (g₀ : Logging) (before calls : List LoggerCall) (k : ℕ) (s : Shared) : Prop :=
  ∀ name, ∃ done hist, (done = calls.take k ∨ done = calls.take (k + 1)) ∧
    Merges done (List.replicate s.pipe sigintCall) hist ∧
      HasSink g₀ s.logging name (sinkAfter name (before ++ hist))

theorem codeOf_cons_ne_nil (call : LoggerCall) (rest : List LoggerCall) :
    codeOf (call :: rest) ≠ [] := by
  have hhead : codeOf (call :: rest) = call.toWorkers.code ++ codeOf rest := rfl
  rw [hhead]
  obtain ⟨level, msg, hcall⟩ | ⟨inner, -, hlocked⟩ := call.toWorkers.code_cases
  · rw [hcall]
    exact nofun
  · rw [hlocked]
    exact nofun

/-- At each stage the sinks have taken in some of the calls, and all of them at the end. -/
theorem Stage.takenIn {g₀ : Logging} {before calls : List LoggerCall} {s : Shared}
    {code : List LogStep} (h : Stage g₀ before calls s code) :
    ∃ k, (code = [] → k = calls.length) ∧ TakenIn g₀ before calls k s := by
  cases h with
  | @between done rest hcalls hfree hreaders h =>
    obtain ⟨hist, hmerge, hkeeps⟩ := h
    refine ⟨done.length, fun hend => ?_, fun name => ⟨done, hist name, .inl ?_, hmerge name,
      hkeeps.sink name⟩⟩
    · -- All calls are done when no code is left.
      cases rest with
      | nil => rw [hcalls, List.append_nil]
      | cons call rest => exact absurd hend (codeOf_cons_ne_nil call rest)
    · rw [hcalls, List.take_left]
  | @reading done rest call _ _ hcalls hcall hfree hreaders h =>
    obtain ⟨hist, hmerge, hkeeps⟩ := h
    refine ⟨done.length, nofun, fun name => ⟨done, hist name, .inl ?_, hmerge name,
      hkeeps.sink name⟩⟩
    rw [hcalls, List.take_left]
  | @writing done rest call _ _ names hcalls hcall hfree hreaders hnames hnodup h =>
    obtain ⟨hist, hmerge, hkeeps⟩ := h
    refine ⟨done.length, by simp, fun name => ⟨_, hist name, ?_, hmerge name, hkeeps.sink name⟩⟩
    dsimp only
    split
    · -- A sink that the LOG has yet to reach: the calls done so far,
      left
      rw [hcalls, List.take_left]
    · -- and one that the LOG has written to is a call ahead.
      right
      rw [hcalls, List.take_append, List.take_of_length_le (Nat.le_succ _)]
      simp

section

variable {g₀ : Logging} (hempty : g₀.workers = []) (hunlocked : g₀.mutex = {})
  {before calls : List LoggerCall}

include hempty hunlocked

/-- With nothing in between, calls leave no lock behind. -/
theorem interruptible_runCalls : Interruptible ⟨runCalls before g₀, 0⟩ ∧
    (runCalls before g₀).mutex = {} := by
  induction before using List.reverseRecOn with
  | nil =>
    refine ⟨⟨?_, ?_⟩, hunlocked⟩
    · show g₀.mutex.owner = none
      rw [hunlocked]
    · show ∀ e ∈ g₀.workers, e.2.holder = none
      simp [hempty]
  | append_singleton before call ih =>
    obtain ⟨hfree, hmutex⟩ := ih.1.run call.toWorkers
    rw [runCalls_concat]
    exact ⟨hfree, hmutex.trans ih.2⟩

variable {t : Thread Shared LogStep} (h : loggerMachine.Reaches signalHandler Interruptible
  (mainThread (runCalls before g₀) (calls.map LoggerCall.toWorkers)) t) (hidle : t.handler = none)

include h hidle

/-- The thread comes to the next of its states outside of a critical section. -/
theorem nears_stage :
    loggerMachine.Nears Interruptible (Stage g₀ before calls) t.shared t.code := by
  obtain ⟨hfree, hmutex⟩ := @interruptible_runCalls g₀ hempty hunlocked before
  have hstart : Stage g₀ before calls ⟨runCalls before g₀, 0⟩ (codeOf calls) := by
    refine .between rfl hfree (by rw [hmutex]) ⟨fun _ => [], fun _ => .nil, ?_⟩
    simp only [List.append_nil]
    exact keepsTo_runCalls hempty before
  have hcompletes : ∀ s, Interruptible s →
      loggerMachine.Completes .handler s signalHandler s.sigint :=
    fun s hs => signalHandler_completes hs
  exact (h.nears stage_step hcompletes (fun hstage _ => hstage.sigint) rfl hstart).1 hidle

/-- At the end of the run every sink has been given all calls. -/
theorem sinks_of_end (hend : t.code = []) (name : Bytes) :
    ∃ hist, Merges calls (List.replicate t.shared.pipe sigintCall) hist ∧
      HasSink g₀ t.shared.logging name (sinkAfter name (before ++ hist)) := by
  have hnears := nears_stage hempty hunlocked h hidle
  rw [hend] at hnears
  obtain ⟨k, hk, htaken⟩ := hnears.of_end.takenIn
  obtain ⟨done, hist, hdone, hmerge, hsink⟩ := htaken name
  have hall : done = calls := by
    rw [hk rfl, List.take_of_length_le (Nat.le_succ _), List.take_length, or_self] at hdone
    exact hdone
  exact ⟨hist, hall ▸ hmerge, hsink⟩

/-- **The log under signals.**  In a run in which each SIGINT arrives in a state that the handler
    can interrupt, wherever the thread is in such a state, every sink has been given the calls made
    so far one after the other, in the middle of a `LOG` with or without the last of them, and in
    between the line of the handler as many times as there are bytes in the pipe: no message is
    torn, lost, or written twice, and none changes its place among those of the thread. -/
theorem sigint_delivery (hfree : Interruptible t.shared) :
    ∃ k, (t.code = [] → k = calls.length) ∧ TakenIn g₀ before calls k t.shared :=
  ((nears_stage hempty hunlocked h hidle).of_allowed hfree).takenIn

end

/-- A logger with nothing in it. -/
def noLogging : Logging := { workers := [], outputs := fun _ => [], clock := [] }

/-- What `main` opens first of all. -/
def mainFiles : List LoggerCall :=
  [.addFile (bytes "log/info.log") .INFO, .addFile (bytes "log/trace.log") .TRACE]

/-- What the loop of `HTTPServer::run` logs in front of `poll`. -/
def pollCall : LoggerCall := .LOG .INFO (bytes "HTTPServer.cpp") 114 (bytes "run")
  (bytes "Blocking on poll...")

/-- A signal between the first file and the second, in the middle of that line: each of the two gets
    both lines, if not in the same order. -/
theorem sigint_delivery_between : ∃ t : Thread Shared LogStep, t.code = [] ∧ t.shared.pipe = 1 ∧
    TakenIn noLogging mainFiles [pollCall] 1 t.shared := by
  let info := bytes "log/info.log"
  let trace := bytes "log/trace.log"
  let msg := Logger.message .INFO (bytes "HTTPServer.cpp") 114 (bytes "run")
    (bytes "Blocking on poll...")
  let reading := (Shared.mk (runCalls mainFiles noLogging) 0).takeShared .thread
  let between := reading.onLogging (·.logTo info .INFO msg)
  have hreading : Interruptible reading := ⟨rfl, by decide +kernel⟩
  have hbetween : Interruptible between := hreading.logTo ..
  have hsigint : Interruptible between.sigint := by
    obtain ⟨hfree, -⟩ := hbetween.run (.log .INFO sigintMessage)
    exact ⟨hfree.registry, hfree.workers⟩
  -- The first file has its line.
  have hread : loggerMachine.Reaches signalHandler Interruptible
      (mainThread (runCalls mainFiles noLogging) ([pollCall].map LoggerCall.toWorkers))
      ⟨reading, [] ++ [.eachWorker .INFO msg, .unlockShared], none⟩ :=
    .step .start (exec_lockShared rfl .thread)
  have heach : loggerMachine.Reaches signalHandler Interruptible
      (mainThread (runCalls mainFiles noLogging) ([pollCall].map LoggerCall.toWorkers))
      ⟨reading, (workerLogCode .INFO msg info ++ workerLogCode .INFO msg trace)
        ++ [.unlockShared], none⟩ := .step hread rfl
  rw [List.append_assoc] at heach
  have hfirst := heach.run_thread (completes_worker .thread hreading info .INFO msg)
  have hsignal := (hfirst.signal hbetween).run_handler (signalHandler_completes hbetween)
  have hsecond := hsignal.run_thread (completes_worker .thread hsigint trace .INFO msg)
  have hlast := hsecond.run_thread (Machine.completes_one rfl)
  obtain ⟨k, hk, htaken⟩ := sigint_delivery rfl rfl hlast rfl ⟨rfl, by decide +kernel⟩
  rw [hk rfl] at htaken
  refine ⟨⟨_, [], none⟩, rfl, ?_, htaken⟩
  rfl

end Evaluation
