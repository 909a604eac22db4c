import Evaluation.LogThreads

namespace Evaluation

open Lib Logging

/-!
# The logger under threads

Any number of threads call the logger, and their insertions come in any order that its locks leave
open.  While nobody has the registry for itself, some threads are in a `LOG`, and at most one of
them is inserting into each sink; so a sink holds whole entries and the beginning of one at most.

* `Place`, `Local`, `At` — where a thread is in its calls, and the code that it has to come;
* `Ghost` — who holds which lock, what has been given to which sink, and what of it is still to be
  inserted;
* `Locks`, `Past`, `Inserted`, `Steady` — how all that fits together while nobody has the registry
  for itself;
* `Locks.lockShared` and its siblings — what the locks do to it;
* `Past.give`, `Inserted.give` and their siblings — and what the messages do.
-/

/-! ### Where a thread is -/

/-- How far a worker is with a message: it has its mutex, and is to compare the levels, to look at
    the clock, or to make some insertions. -/
inductive Turn where
  | check
  | stamp
  | write (texts : List Bytes)
  deriving DecidableEq, Repr

/-- Between two calls, or in a `LOG`: with the registry as a reader, and some workers to come, the
    first of which may have begun. -/
inductive Place where
  | between
  | reading
  | writing (names : List Bytes)
  | turn (name : Bytes) (turn : Turn) (names : List Bytes)
  deriving DecidableEq, Repr

namespace Place

/-- The sink whose mutex is held. -/
def holder : Place → Option Bytes
  | turn name _ _ => some name
  | _ => none

/-- What is still to be inserted into it. -/
def pending : Place → Bytes
  | turn _ (.write texts) _ => texts.flatten
  | _ => []

/-- The sinks that are still to be given the message, once they are known. -/
def owed : Place → Option (List Bytes)
  | between => none
  | reading => none
  | writing names => some names
  | turn _ (.write _) names => some names
  | turn name _ names => some (name :: names)

end Place

/-- A thread: the calls that it has made, those to come, of which it may have begun the first, and
    where it is in that. -/
structure Local where
  done : List LoggerCall
  rest : List LoggerCall
  place : Place

/-- The call that a sink has been given, although it goes on. -/
def Local.latest (l : Local) (name : Bytes) : List LoggerCall :=
  match l.place.owed with
  | none => []
  | some names => if name ∈ names then [] else l.rest.take 1

/-- The steps of some calls. -/
def threadCode (calls : List LoggerCall) : List ThreadStep := (codeOf calls).map .step

/-- The steps of some workers. -/
def workersCode (level : LogLevel) (msg : Bytes) (names : List Bytes) : List ThreadStep :=
  (names.flatMap (workerLogCode level msg)).map .step

/-- The steps of a worker up to the end of its turn. -/
def Turn.code (level : LogLevel) (msg name : Bytes) : Turn → List ThreadStep
  | check => [.step (.logTo name level msg)]
  | stamp => .readTime name :: (messageTexts name level msg).map (.write name)
  | write texts => texts.map (.write name)

/-- The sinks and their levels. -/
def Logging.registry (g : Logging) : List (Bytes × LogLevel) :=
  g.workers.map fun e => (e.1, e.2.level)

/-- **Where a thread is**, by its code. -/
inductive At (registry : List (Bytes × LogLevel)) : Local → List ThreadStep → Prop where
  | between {done rest : List LoggerCall} : At registry ⟨done, rest, .between⟩ (threadCode rest)
  | reading {done rest : List LoggerCall} {call : LoggerCall} {level : LogLevel} {msg : Bytes}
      (hcall : call.toWorkers = .log level msg) : At registry ⟨done, call :: rest, .reading⟩
        (.step (.eachWorker level msg) :: .step .unlockShared :: threadCode rest)
  | writing {done rest : List LoggerCall} {call : LoggerCall} {level : LogLevel} {msg : Bytes}
      {names : List Bytes} (hcall : call.toWorkers = .log level msg)
      (hnames : names ⊆ registry.map Prod.fst) (hnodup : names.Nodup) :
      At registry ⟨done, call :: rest, .writing names⟩
        (workersCode level msg names ++ .step .unlockShared :: threadCode rest)
  | turn {done rest : List LoggerCall} {call : LoggerCall} {level : LogLevel} {msg name : Bytes}
      {turn : Turn} {names : List Bytes} (hcall : call.toWorkers = .log level msg)
      (hnames : name :: names ⊆ registry.map Prod.fst) (hnodup : (name :: names).Nodup)
      (hstamp : turn = .stamp → ∃ inForce, registry.lookup name = some inForce ∧
        level.toNat ≤ inForce.toNat) :
      At registry ⟨done, call :: rest, .turn name turn names⟩
        (turn.code level msg name ++ .step (.unlockWorker name)
          :: (workersCode level msg names ++ .step .unlockShared :: threadCode rest))

/-! ### The registry -/

namespace Logging

/-- The registry has the names of the workers. -/
theorem registry_names (g : Logging) : g.registry.map Prod.fst = g.workers.map Prod.fst := by
  simp [registry]

/-- The registry has the levels of the workers. -/
theorem registry_lookup (g : Logging) (name : Bytes) :
    g.registry.lookup name = (g.workers.lookup name).map Worker.level := by
  unfold registry
  induction g.workers with
  | nil => rfl
  | cons e es ih =>
    rw [List.map_cons, List.lookup_cons, List.lookup_cons, ih]
    cases name == e.1 <;> rfl

/-- It does not say who holds a mutex. -/
theorem registry_setHolder (g : Logging) (name : Bytes) (holder : Option Context) :
    (g.setHolder name holder).registry = g.registry := by
  unfold registry setHolder update
  rw [List.map_map]
  refine List.map_congr_left fun e _ => ?_
  by_cases he : e.1 = name
  · simp [he]
  · simp [he]

/-- A logger whose sinks have been given some texts more. -/
def ahead (g : Logging) (pending : Bytes → Bytes) : Logging :=
  { g with outputs := fun name => g.outputs name ++ pending name }

/-- What is inserted comes behind what is there. -/
theorem outputs_prefix_write (g : Logging) (name text other : Bytes) :
    g.outputs other <+: (g.write name text).outputs other := by
  rcases eq_or_ne other name with rfl | hne
  · rw [outputs_write]
    exact List.prefix_append ..
  · rw [outputs_write_of_ne hne]

/-- An insertion is what was pending. -/
theorem ahead_write {g : Logging} {pending : Bytes → Bytes} {name text more : Bytes}
    (h : pending name = text ++ more) :
    (g.write name text).ahead (Function.update pending name more) = g.ahead pending := by
  unfold ahead write
  congr 1
  funext other
  rcases eq_or_ne other name with rfl | hne
  · simp [h]
  · simp [hne]

/-- A worker that has looked at the clock. -/
theorem ahead_logTo {g : Logging} {pending : Bytes → Bytes} {name : Bytes} {worker : Worker}
    {level : LogLevel} (h : pending name = []) (hlookup : g.workers.lookup name = some worker)
    (hle : level.toNat ≤ worker.level.toNat) (msg : Bytes) :
    ({ g with clock := g.clock.tail } : Logging).ahead (Function.update pending name
        (g.clock.headD [] :: bytes " | " :: messageTexts name level msg).flatten)
      = (g.ahead pending).logTo name level msg := by
  have hlookup' : (g.ahead pending).workers.lookup name = some worker := hlookup
  rw [logTo_eq hlookup' hle, ← flatten_messageTexts]
  unfold ahead logTime write
  congr 1
  funext other
  rcases eq_or_ne other name with rfl | hne
  · simp [h]
  · simp [hne]

end Logging

/-- Only the registry, the clock and the texts matter. -/
theorem KeepsTo.of_same {g₀ g g' : Logging} {sinks : Bytes → Sink} (h : KeepsTo g₀ g sinks)
    (hregistry : g'.registry = g.registry) (hclock : g'.clock = g.clock)
    (houtputs : g'.outputs = g.outputs) : KeepsTo g₀ g' sinks where
  nodup := by
    rw [← registry_names, hregistry, registry_names]
    exact h.nodup
  clock := hclock ▸ h.clock
  sink name := by
    refine ⟨?_, ?_⟩
    · rw [← registry_lookup, hregistry, registry_lookup]
      exact (h.sink name).level
    · rw [houtputs]
      exact (h.sink name).written

/-- A message is nothing to the sinks that do not write it. -/
theorem KeepsTo.silent {g₀ g : Logging} {sinks : Bytes → Sink} (h : KeepsTo g₀ g sinks)
    {level : LogLevel} {given : Bytes → Prop} [DecidablePred given]
    (hsilent : ∀ name, given name → ∀ inForce, g.registry.lookup name = some inForce →
      inForce.toNat < level.toNat) (msg : Bytes) :
    KeepsTo g₀ g fun name =>
      if given name then (sinks name).step name (.log level msg) else sinks name where
  nodup := h.nodup
  clock := h.clock
  sink name := by
    split
    · rename_i hgiven
      rw [Sink.step_log_silent]
      · exact h.sink name
      · rw [← (h.sink name).level, ← registry_lookup]
        exact hsilent name hgiven
    · exact h.sink name

/-! ### Who holds what, and what has been given -/

/-- A call that changes the registry, and not a `LOG`. -/
def LoggerCall.changes (call : LoggerCall) : Bool :=
  match call.toWorkers with
  | .log _ _ => false
  | _ => true

/-- A LOG does not change the registry. -/
theorem changes_eq_false {call : LoggerCall} {level : LogLevel} {msg : Bytes}
    (hcall : call.toWorkers = .log level msg) : call.changes = false := by
  unfold LoggerCall.changes
  rw [hcall]

section

variable {κ : Type} [DecidableEq κ]

/-- What a thread has contributed to a history, and the changes of the registry. -/
def around (k : κ) (hist : List (κ × LoggerCall)) : List (κ × LoggerCall) :=
  hist.filter fun e => decide (e.1 = k) || e.2.changes

/-- Where the threads are; who has the registry as a reader, and who each sink's mutex; what each
    sink has been given, and what it holds of that already; for each thread the part on which all
    sinks agree; and what is still to be inserted. -/
structure Ghost (κ : Type) where
  loc : κ → Local
  readers : List κ
  writer : Bytes → Option κ
  hist : Bytes → List (κ × LoggerCall)
  whole : Bytes → List (κ × LoggerCall)
  common : κ → List (κ × LoggerCall)
  pending : Bytes → Bytes

/-- The locks are held by whom they should. -/
structure Locks (G : Ghost κ) (s : Shared) : Prop where
  free : s.logging.mutex.owner = none
  nodup : G.readers.Nodup
  reading : ∀ k, k ∈ G.readers ↔ (G.loc k).place ≠ .between
  readers : s.logging.mutex.readers = List.replicate G.readers.length .thread
  held : ∀ name, s.held name = (G.writer name).isSome
  holder : ∀ k name, G.writer name = some k ↔ (G.loc k).place.holder = some name

/-- Every sink has been given what each thread has done; of the call that a thread has begun some
    have been given the message already. -/
structure Past (G : Ghost κ) : Prop where
  done : ∀ k, ofThread k (G.common k) = (G.loc k).done
  around : ∀ k name,
    around k (G.hist name) = G.common k ++ ((G.loc k).latest name).map fun call => (k, call)

/-- Every sink holds all that it has been given, or all but the last. -/
structure Inserted (g₀ : Logging) (before : List LoggerCall) (G : Ghost κ) (g : Logging) :
    Prop where
  text : ∀ name, ∃ text, g₀.outputs name ++ text <+: g.outputs name ∧
    Written g₀.clock name (sinkAfter name (before ++ (G.whole name).map Prod.snd)).entries text
  last : ∀ name, G.hist name = G.whole name ∨ ∃ e, G.hist name = G.whole name ++ [e]

/-- **Nobody has the registry for itself.** -/
structure Steady (g₀ : Logging) (before : List LoggerCall) (calls : κ → List LoggerCall)
    (G : Ghost κ) (t : Threads κ Shared ThreadStep) : Prop where
  calls : ∀ k, calls k = (G.loc k).done ++ (G.loc k).rest
  place : ∀ k, At t.shared.logging.registry (G.loc k) (t.code k)
  locks : Locks G t.shared
  past : Past G
  whole : Inserted g₀ before G t.shared.logging
  pending : ∀ k name, (G.loc k).place.holder = some name →
    G.pending name = (G.loc k).place.pending
  quiet : ∀ name, G.writer name = none → G.pending name = []
  keeps : KeepsTo g₀ (t.shared.logging.ahead G.pending) fun name =>
    sinkAfter name (before ++ (G.hist name).map Prod.snd)

variable {G G' : Ghost κ} {s s' : Shared} {k : κ} {l : Local}

/-! ### The locks -/

/-- Nothing that has to do with a lock. -/
theorem Locks.same (h : Locks G s) (hloc : G'.loc = Function.update G.loc k l)
    (hreaders : G'.readers = G.readers) (hwriter : G'.writer = G.writer)
    (hreading : l.place ≠ .between ↔ (G.loc k).place ≠ .between)
    (hholder : l.place.holder = (G.loc k).place.holder)
    (hmutex : s'.logging.mutex = s.logging.mutex) (hheld : ∀ name, s'.held name = s.held name) :
    Locks G' s' where
  free := hmutex ▸ h.free
  nodup := hreaders ▸ h.nodup
  reading j := by
    rw [hreaders, h.reading, hloc]
    rcases eq_or_ne j k with rfl | hne
    · rw [Function.update_self, hreading]
    · rw [Function.update_of_ne hne]
  readers := by rw [hmutex, h.readers, hreaders]
  held name := by rw [hheld, h.held, hwriter]
  holder j name := by
    rw [hwriter, h.holder, hloc]
    rcases eq_or_ne j k with rfl | hne
    · rw [Function.update_self, hholder]
    · rw [Function.update_of_ne hne]

/-- A reader more. -/
theorem Locks.lockShared (h : Locks G s) (hbetween : (G.loc k).place = .between)
    (hplace : l.place = .reading) :
    Locks { G with loc := Function.update G.loc k l, readers := k :: G.readers }
      (s.takeShared .thread) where
  free := h.free
  nodup := List.nodup_cons.mpr ⟨fun hmem => (h.reading k).mp hmem hbetween, h.nodup⟩
  reading j := by
    -- One reader more: the thread itself, which was between two calls.
    rcases eq_or_ne j k with rfl | hne
    · simp [hplace]
    · simp [hne, h.reading]
  readers := by
    show Context.thread :: s.logging.mutex.readers = _
    rw [h.readers]
    rfl
  held := h.held
  holder j name := by
    rcases eq_or_ne j k with rfl | hne
    · have hnot : G.writer name ≠ some j := by
        rw [ne_eq, h.holder, hbetween]
        exact nofun
      simp [hplace, Place.holder, hnot]
    · simp [hne, h.holder]

/-- And one less. -/
theorem Locks.unlockShared (h : Locks G s) {names : List Bytes}
    {common : κ → List (κ × LoggerCall)} (hwriting : (G.loc k).place = .writing names)
    (hplace : l.place = .between) :
    Locks { G with loc := Function.update G.loc k l, readers := G.readers.erase k, common }
      (s.releaseShared .thread) where
  free := h.free
  nodup := h.nodup.erase k
  reading j := by
    rcases eq_or_ne j k with rfl | hne
    · simp [hplace, h.nodup.mem_erase_iff]
    · simp [hne, h.nodup.mem_erase_iff, h.reading]
  readers := by
    -- The thread was a reader, and is one no more.
    have hmem : k ∈ G.readers := (h.reading k).mpr (by rw [hwriting]; exact nofun)
    show s.logging.mutex.readers.erase .thread = _
    rw [h.readers, List.length_erase_of_mem hmem, List.erase_replicate_self]
  held := h.held
  holder j name := by
    rcases eq_or_ne j k with rfl | hne
    · have hnot : G.writer name ≠ some j := by
        rw [ne_eq, h.holder, hwriting]
        exact nofun
      simp [hplace, Place.holder, hnot]
    · simp [hne, h.holder]

/-- A worker's mutex is held once it has been taken. -/
theorem held_lockWorker {name : Bytes} (h : name ∈ s.logging.workers.map Prod.fst) :
    (s.onLogging (·.setHolder name (some .thread))).held name = true := by
  obtain ⟨e, he, rfl⟩ := List.mem_map.mp h
  refine List.any_eq_true.mpr ⟨(e.1, { e.2 with holder := some .thread }), ?_, by simp⟩
  refine List.mem_map.mpr ⟨e, he, ?_⟩
  rw [if_pos rfl]

/-- A worker's mutex is free once it has been given back. -/
theorem held_unlockWorker (s : Shared) (name : Bytes) :
    (s.onLogging (·.setHolder name none)).held name = false := by
  refine List.any_eq_false.mpr fun e he => ?_
  obtain ⟨e', -, rfl⟩ := List.mem_map.mp he
  by_cases hname : e'.1 = name
  · simp [hname]
  · simp [hname]

/-- Where there is no worker there is no mutex. -/
theorem held_of_not_mem {name : Bytes} (h : name ∉ s.logging.workers.map Prod.fst) :
    s.held name = false := by
  refine List.any_eq_false.mpr fun e he => ?_
  have hne : e.1 ≠ name := fun hname => h (List.mem_map.mpr ⟨e, he, hname⟩)
  simp [hne]

omit [DecidableEq κ] in
/-- Nobody writes to a sink whose mutex is free. -/
theorem Locks.writer_eq_none (h : Locks G s) {name : Bytes} (hfree : s.held name = false) :
    G.writer name = none := by
  have hheld := h.held name
  rw [hfree] at hheld
  exact Option.not_isSome_iff_eq_none.mp (by rw [← hheld]; exact Bool.false_ne_true)

/-- Taking a worker's mutex keeps the account of the locks. -/
theorem Locks.lockWorker (h : Locks G s) {name : Bytes} {names names' : List Bytes} {turn : Turn}
    (hname : name ∈ s.logging.workers.map Prod.fst) (hfree : s.held name = false)
    (hwriting : (G.loc k).place = .writing names) (hplace : l.place = .turn name turn names') :
    Locks { G with
        loc := Function.update G.loc k l, writer := Function.update G.writer name (some k) }
      (s.onLogging (·.setHolder name (some .thread))) where
  free := h.free
  nodup := h.nodup
  reading j := by
    rcases eq_or_ne j k with rfl | hne
    · simp [h.reading, hplace, hwriting]
    · simp [h.reading, hne]
  readers := h.readers
  held other := by
    rcases eq_or_ne other name with rfl | hne
    · rw [held_lockWorker hname]
      simp
    · rw [held_setHolder hne, h.held]
      simp [hne]
  holder j other := by
    -- The mutex was free, so nobody held it before this thread.
    have hnone := h.writer_eq_none hfree
    rcases eq_or_ne other name with rfl | hother
    · rcases eq_or_ne j k with rfl | hne
      · simp [hplace, Place.holder]
      · have hnot : (G.loc j).place.holder ≠ some other := by
          rw [ne_eq, ← h.holder, hnone]
          exact nofun
        simp [hne, hnot, Ne.symm hne]
    · rcases eq_or_ne j k with rfl | hne
      · have hnot : G.writer other ≠ some j := by
          rw [ne_eq, h.holder, hwriting]
          exact nofun
        simp [hother, hplace, Place.holder, hnot, Ne.symm hother]
      · simp [hother, hne, h.holder]

/-- Giving it back keeps the account of the locks. -/
theorem Locks.unlockWorker (h : Locks G s) {name : Bytes} {names : List Bytes} {turn : Turn}
    (hturn : (G.loc k).place = .turn name turn names) (hplace : l.place = .writing names) :
    Locks { G with loc := Function.update G.loc k l, writer := Function.update G.writer name none }
      (s.onLogging (·.setHolder name none)) where
  free := h.free
  nodup := h.nodup
  reading j := by
    rcases eq_or_ne j k with rfl | hne
    · simp [h.reading, hplace, hturn]
    · simp [h.reading, hne]
  readers := h.readers
  held other := by
    rcases eq_or_ne other name with rfl | hne
    · rw [held_unlockWorker]
      simp
    · rw [held_setHolder hne, h.held]
      simp [hne]
  holder j other := by
    -- The mutex was this thread's, so nobody holds it now.
    have hholds : G.writer name = some k := (h.holder k name).mpr (by rw [hturn]; rfl)
    rcases eq_or_ne other name with rfl | hother
    · rcases eq_or_ne j k with rfl | hne
      · simp [hplace, Place.holder]
      · have hnot : (G.loc j).place.holder ≠ some other := by
          rw [ne_eq, ← h.holder, hholds, Option.some.injEq]
          exact Ne.symm hne
        simp [hne, hnot]
    · rcases eq_or_ne j k with rfl | hne
      · have hnot : G.writer other ≠ some j := by
          rw [ne_eq, h.holder, hturn]
          simpa [Place.holder] using Ne.symm hother
        simp [hother, hplace, Place.holder, hnot]
      · simp [hother, hne, h.holder]

/-! ### What has been given -/

/-- A thread's own call is among those around it. -/
theorem around_concat_self (k : κ) (hist : List (κ × LoggerCall)) (call : LoggerCall) :
    around k (hist ++ [(k, call)]) = around k hist ++ [(k, call)] := by
  simp [around]

/-- Another thread's LOG is not among them. -/
theorem around_concat_of_ne {j : κ} (h : j ≠ k) (hist : List (κ × LoggerCall)) {call : LoggerCall}
    (hcall : call.changes = false) : around k (hist ++ [(j, call)]) = around k hist := by
  simp [around, h, hcall]

/-- Another thread's change of the registry is among them. -/
theorem around_concat_change (k j : κ) (hist : List (κ × LoggerCall)) {call : LoggerCall}
    (hcall : call.changes = true) :
    around k (hist ++ [(j, call)]) = around k hist ++ [(j, call)] := by
  simp [around, hcall]

/-- Some sinks are given a message. -/
theorem Past.give (h : Past G) (hdone : l.done = (G.loc k).done) {call : LoggerCall}
    (hcall : call.changes = false) {given : Bytes → Prop} [DecidablePred given]
    (hbefore : ∀ name, given name → (G.loc k).latest name = [])
    (hafter : ∀ name, l.latest name
      = if given name then [call] else (G.loc k).latest name)
    (hloc : G'.loc = Function.update G.loc k l) (hcommon : G'.common = G.common)
    (hhist : G'.hist = fun name => if given name then G.hist name ++ [(k, call)] else G.hist name) :
    Past G' where
  done j := by
    rw [hcommon, h.done, hloc]
    -- Of the call in hand it is only the thread itself that has an account.
    rcases eq_or_ne j k with rfl | hne
    · rw [Function.update_self, hdone]
    · rw [Function.update_of_ne hne]
  around j name := by
    have hbase := h.around j name
    rw [hcommon, hhist, hloc]
    dsimp only
    rcases eq_or_ne j k with rfl | hne
    · rw [Function.update_self, hafter]
      split
      · rename_i hgiven
        rw [hbefore name hgiven, List.map_nil, List.append_nil] at hbase
        rw [around_concat_self, hbase]
        rfl
      · exact hbase
    · rw [Function.update_of_ne hne]
      split
      · rw [around_concat_of_ne (Ne.symm hne) _ hcall, hbase]
      · exact hbase

/-- Nothing is given. -/
theorem Past.same (h : Past G) (hdone : l.done = (G.loc k).done)
    (hlatest : ∀ name, l.latest name = (G.loc k).latest name)
    (hloc : G'.loc = Function.update G.loc k l) (hcommon : G'.common = G.common)
    (hhist : G'.hist = G.hist) : Past G' where
  done j := by
    rw [hcommon, h.done, hloc]
    rcases eq_or_ne j k with rfl | hne
    · rw [Function.update_self, hdone]
    · rw [Function.update_of_ne hne]
  around j name := by
    rw [hcommon, hhist, h.around, hloc]
    rcases eq_or_ne j k with rfl | hne
    · rw [Function.update_self, hlatest]
    · rw [Function.update_of_ne hne]

/-- A `LOG` comes to its end. -/
theorem Past.finish (h : Past G) {call : LoggerCall} (hdone : l.done = (G.loc k).done ++ [call])
    (hbefore : ∀ name, (G.loc k).latest name = [call]) (hafter : ∀ name, l.latest name = [])
    (hloc : G'.loc = Function.update G.loc k l)
    (hcommon : G'.common = Function.update G.common k (G.common k ++ [(k, call)]))
    (hhist : G'.hist = G.hist) : Past G' where
  done j := by
    rw [hcommon, hloc]
    rcases eq_or_ne j k with rfl | hne
    · rw [Function.update_self, Function.update_self, ofThread_concat_self, h.done, hdone]
    · rw [Function.update_of_ne hne, Function.update_of_ne hne, h.done]
  around j name := by
    rw [hcommon, hhist, h.around, hloc]
    rcases eq_or_ne j k with rfl | hne
    · rw [Function.update_self, Function.update_self, hbefore, hafter]
      simp
    · rw [Function.update_of_ne hne, Function.update_of_ne hne]

/-- A change of the registry, while nobody is in a `LOG`. -/
theorem Past.change (h : Past G) {call : LoggerCall} (hdone : l.done = (G.loc k).done ++ [call])
    (hcall : call.changes = true) (hbefore : ∀ j name, (G.loc j).latest name = [])
    (hafter : ∀ name, l.latest name = []) (hloc : G'.loc = Function.update G.loc k l)
    (hcommon : G'.common = fun j => G.common j ++ [(k, call)])
    (hhist : G'.hist = fun name => G.hist name ++ [(k, call)]) : Past G' where
  done j := by
    rw [hcommon, hloc]
    rcases eq_or_ne j k with rfl | hne
    · rw [Function.update_self, ofThread_concat_self, h.done, hdone]
    · rw [Function.update_of_ne hne, ofThread_concat_of_ne (Ne.symm hne), h.done]
  around j name := by
    have hbase := h.around j name
    rw [hbefore, List.map_nil, List.append_nil] at hbase
    -- Behind a change nobody is inside a call.
    have hlatest : (G'.loc j).latest name = [] := by
      rw [hloc]
      rcases eq_or_ne j k with rfl | hne
      · rw [Function.update_self, hafter]
      · rw [Function.update_of_ne hne, hbefore]
    rw [hlatest, hcommon, hhist, around_concat_change _ _ _ hcall, hbase]
    simp

/-! ### What is there of it -/

variable {g₀ g g' : Logging} {before : List LoggerCall}

omit [DecidableEq κ] in
/-- What has been inserted stays where the account is the same. -/
theorem Inserted.same (h : Inserted g₀ before G g) (hhist : G'.hist = G.hist)
    (hwhole : G'.whole = G.whole) (houtputs : ∀ name, g.outputs name <+: g'.outputs name) :
    Inserted g₀ before G' g' where
  text name := by
    obtain ⟨text, hprefix, hwritten⟩ := h.text name
    rw [hwhole]
    exact ⟨text, hprefix.trans (houtputs name), hwritten⟩
  last := by
    rw [hhist, hwhole]
    exact h.last

omit [DecidableEq κ] in
/-- A sink is given a message when it holds all that it has been given before. -/
theorem Inserted.give (h : Inserted g₀ before G g) {call : LoggerCall} {given : Bytes → Prop}
    [DecidablePred given]
    (hkeeps : KeepsTo g₀ (g.ahead G.pending) fun name =>
      sinkAfter name (before ++ (G.hist name).map Prod.snd))
    (hpending : ∀ name, given name → G.pending name = []) (houtputs : g'.outputs = g.outputs)
    (hhist : G'.hist = fun name => if given name then G.hist name ++ [(k, call)] else G.hist name)
    (hwhole : G'.whole = fun name => if given name then G.hist name else G.whole name) :
    Inserted g₀ before G' g' where
  text name := by
    rw [houtputs, hwhole]
    dsimp only
    -- Nothing is pending for the sinks that are given the call, so they hold all before it.
    split
    · rename_i hgiven
      obtain ⟨text, houtput, hwritten⟩ := (hkeeps.sink name).written
      refine ⟨text, ?_, hwritten⟩
      rw [← houtput]
      show g.outputs name ++ G.pending name <+: _
      rw [hpending name hgiven, List.append_nil]
    · exact h.text name
  last name := by
    rw [hhist, hwhole]
    dsimp only
    split
    · exact .inr ⟨_, rfl⟩
    · exact h.last name

end

end Evaluation
