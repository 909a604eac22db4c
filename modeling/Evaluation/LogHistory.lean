import Evaluation.Interrupt

namespace Evaluation

open Lib Logging

/-!
# Whole histories of the logger

Any sequence of calls of the public functions of `Logger`, from an empty registry on.  Seen by
itself, a sink is a level and a list of entries: it is opened and closed, its level is changed, and
it is given the messages that its level lets through.  The registry keeps to that for all its sinks
at once, whatever else is called in between.

* `LoggerCall`, `runCalls` — the calls, and what they do to the logger;
* `Sink`, `Sink.step`, `sinkAfter` — one sink by itself, for a sequence of calls;
* `Written` — a text that consists of such entries, each with its times;
* `deliveries` — the messages that a history brings to a sink, by the level in force at each moment;
* `KeepsTo` — the logger has, for every name, what the sink by itself has; `KeepsTo.run` — every
  call leaves it so;
* `log_delivery` — so it is after any history; no sink is touched by what is done to another;
* `announcesInForce_iff` — the last level that a sink has announced is the one in force exactly as
  long as no sink is added anew with another level.
-/

/-- The calls that `Logger.h` offers. -/
inductive LoggerCall where
  | addFile (path : Bytes) (level : LogLevel)
  | addConsole (level : LogLevel)
  | setLevel (path : Bytes) (level : LogLevel)
  | setConsoleLevel (level : LogLevel)
  | removeFile (path : Bytes)
  | removeConsole
  | LOG (level : LogLevel) (file : Bytes) (line : ℕ) (function text : Bytes)
  deriving DecidableEq, Repr

/-- The function of `Workers` that they call; the console is the sink without a path. -/
def LoggerCall.toWorkers : LoggerCall → LogCall
  | addFile path level => .addWorker path level
  | addConsole level => .addWorker [] level
  | setLevel path level => .setLevel path level
  | setConsoleLevel level => .setLevel [] level
  | removeFile path => .removeWorker path
  | removeConsole => .removeWorker []
  | LOG level file line function text => .log level (Logger.message level file line function text)

def LoggerCall.run (call : LoggerCall) (g : Logging) : Logging := call.toWorkers.run g

/-- A history. -/
def runCalls (calls : List LoggerCall) (g : Logging) : Logging :=
  calls.foldl (fun g call => call.run g) g

/-- The sink that a call is about; a message is for all of them. -/
def LogCall.sink : LogCall → Option Bytes
  | log _ _ => none
  | addWorker name _ => some name
  | setLevel name _ => some name
  | removeWorker name => some name

/-! ### One sink by itself -/

/-- What a sink is given at a time. -/
inductive LogEntry where
  | opened (level : LogLevel)
  | changed (old new : LogLevel)
  | message (level : LogLevel) (msg : Bytes)
  deriving DecidableEq, Repr

/-- The level in force, while the sink is registered, and all it has been given. -/
structure Sink where
  level : Option LogLevel := none
  entries : List LogEntry := []
  deriving DecidableEq, Repr

/-- What a call is to the sink of some name. -/
def Sink.step (name : Bytes) (s : Sink) : LogCall → Sink
  | .addWorker name' level =>
    -- An open sink is opened again, at the level it has.
    if name' = name then ⟨some (s.level.getD level), s.entries ++ [.opened level]⟩ else s
  | .setLevel name' level =>
    match s.level with
    | none => s
    | some old => if name' = name then ⟨some level, s.entries ++ [.changed old level]⟩ else s
  | .removeWorker name' => if name' = name then { s with level := none } else s
  | .log level msg =>
    match s.level with
    | none => s
    | some inForce =>
      if level.toNat ≤ inForce.toNat then { s with entries := s.entries ++ [.message level msg] }
      else s

/-- The sink of some name after a history. -/
def sinkAfter (name : Bytes) (calls : List LoggerCall) : Sink :=
  calls.foldl (fun s call => s.step name call.toWorkers) {}

/-- A message among the entries. -/
def LogEntry.logged : LogEntry → Option (LogLevel × Bytes)
  | .message level msg => some (level, msg)
  | _ => none

/-- The message that a call brings to a sink: one at a level that the sink's worker lets through. -/
def letThrough (g : Logging) (name : Bytes) (call : LogCall) : List (LogLevel × Bytes) :=
  match call with
  | .log level msg =>
    match g.workers.lookup name with
    | none => []
    | some worker => if level.toNat ≤ worker.level.toNat then [(level, msg)] else []
  | _ => []

/-- The messages that a history brings to a sink, each by the level in force at that moment. -/
def deliveries (name : Bytes) : Logging → List LoggerCall → List (LogLevel × Bytes)
  | _, [] => []
  | g, call :: calls => letThrough g name call.toWorkers ++ deliveries name (call.run g) calls

/-- The text of an entry, with the times that stand in it. -/
def LogEntry.text (name time time' : Bytes) : LogEntry → Bytes
  | .opened level =>
    List.replicate timeFmtWidth 45 ++ [newline]
      ++ (time ++ bytes " | " ++ (List.replicate (fullHeaderWidth - timeFmtWidth) 45 ++ [newline]))
      ++ (time' ++ bytes " | " ++ (bytes "Opening \""
        ++ (if name = [] then bytes "Console" else name)
        ++ bytes "\" for logging at level " ++ toStr level ++ [newline]))
  | .changed old new =>
    time ++ bytes " | " ++ (bytes "Changing log level from " ++ toStr old ++ bytes " to "
      ++ toStr new ++ [newline])
  | .message level msg =>
    time ++ bytes " | "
      ++ (logColor name level ++ logLines (stripNewlines msg) 0 ++ resetColor name ++ [newline])

/-- **A text that consists of entries**, in their order; the times are some of those to come. -/
inductive Written (clock : List Bytes) (name : Bytes) : List LogEntry → Bytes → Prop
  | nil : Written clock name [] []
  | concat {es : List LogEntry} {text time time' : Bytes} (e : LogEntry) :
      Written clock name es text → time ∈ [] :: clock → time' ∈ [] :: clock →
      Written clock name (es ++ [e]) (text ++ e.text name time time')

/-- The logger has, under a name, what the sink by itself has. -/
structure HasSink (g₀ g : Logging) (name : Bytes) (s : Sink) : Prop where
  level : (g.workers.lookup name).map Worker.level = s.level
  written : ∃ text, g.outputs name = g₀.outputs name ++ text ∧ Written g₀.clock name s.entries text

/-- **The registry and the sinks**: every name has one entry at most, the clock has not been
    turned back, and each sink is as it is by itself. -/
structure KeepsTo (g₀ g : Logging) (sinks : Bytes → Sink) : Prop where
  nodup : (g.workers.map Prod.fst).Nodup
  clock : g.clock <:+ g₀.clock
  sink : ∀ name, HasSink g₀ g name (sinks name)

namespace Sink

variable {name : Bytes} {s : Sink} {level inForce : LogLevel}

/-- What is about another sink. -/
theorem step_of_ne {call : LogCall} {other : Bytes} (h : call.sink = some other)
    (hne : other ≠ name) : s.step name call = s := by
  cases call with
  | log level msg => cases h
  | addWorker name' level =>
    obtain rfl : name' = other := Option.some.inj h
    exact if_neg hne
  | setLevel name' level =>
    obtain rfl : name' = other := Option.some.inj h
    rw [step]
    cases s.level with
    | none => rfl
    | some old => exact if_neg hne
  | removeWorker name' =>
    obtain rfl : name' = other := Option.some.inj h
    exact if_neg hne

/-- `setLevel` changes the level of a sink and says so in it. -/
theorem step_setLevel (h : s.level = some inForce) :
    s.step name (.setLevel name level)
      = ⟨some level, s.entries ++ [.changed inForce level]⟩ := by
  rw [step, h]
  exact if_pos rfl

/-- For a sink that is not registered it does nothing. -/
theorem step_setLevel_none (h : s.level = none) : s.step name (.setLevel name level) = s := by
  rw [step, h]

/-- A sink takes what its level lets through. -/
theorem step_log (h : s.level = some inForce) (hlevel : level.toNat ≤ inForce.toNat)
    (msg : Bytes) :
    s.step name (.log level msg) = ⟨s.level, s.entries ++ [.message level msg]⟩ := by
  rw [step, h]
  exact if_pos hlevel

/-- A sink does not take what its level keeps out. -/
theorem step_log_silent (h : ∀ inForce, s.level = some inForce → inForce.toNat < level.toNat)
    (msg : Bytes) : s.step name (.log level msg) = s := by
  rw [step]
  cases hs : s.level with
  | none => rfl
  | some inForce => exact if_neg (Nat.not_le.mpr (h inForce hs))

end Sink

/-! ### The registry -/

namespace Logging

/-- A name is not found if and only if it is not in the list. -/
theorem lookup_eq_none_iff_names {es : List (Bytes × Worker)} {name : Bytes} :
    es.lookup name = none ↔ name ∉ es.map Prod.fst := by
  rw [List.lookup_eq_none_iff, List.mem_map, not_exists]
  constructor
  · rintro h e ⟨he, rfl⟩
    simpa using h e he
  · intro h e he
    simpa using fun heq => h e ⟨he, Eq.symm heq⟩

/-- Another name's entry in front does not matter. -/
theorem lookup_cons_of_ne {n other : Bytes} (h : other ≠ n) (w : Worker)
    (es : List (Bytes × Worker)) : List.lookup other ((n, w) :: es) = es.lookup other := by
  rw [List.lookup_cons, beq_eq_false_iff_ne.mpr h]

/-- The new worker is found under its name, the others under theirs. -/
theorem lookup_insertWorker {es : List (Bytes × Worker)} {name : Bytes}
    (h : es.lookup name = none) (worker : Worker) (other : Bytes) :
    (insertWorker name worker es).lookup other
      = if other = name then some worker else es.lookup other := by
  -- Induction on the entries in front of which the new one may be put.
  induction es with
  | nil =>
    rw [insertWorker]
    rcases eq_or_ne other name with rfl | ho
    · rw [if_pos rfl, List.lookup_cons_self]
    · rw [if_neg ho, lookup_cons_of_ne ho]
  | cons e es ih =>
    obtain ⟨n, w⟩ := e
    have hne : name ≠ n := by
      rintro rfl
      simp at h
    rw [lookup_cons_of_ne hne] at h
    have ih' := ih h
    rw [insertWorker]
    rcases eq_or_ne other name with rfl | ho
    · rw [if_pos rfl] at ih' ⊢
      split
      · exact List.lookup_cons_self
      · rw [lookup_cons_of_ne hne, ih']
    · rw [if_neg ho] at ih' ⊢
      split
      · exact lookup_cons_of_ne ho _ _
      · rw [List.lookup_cons, List.lookup_cons, ih']

/-- The names are those before and the new one. -/
theorem names_insertWorker (name : Bytes) (worker : Worker) (es : List (Bytes × Worker)) :
    ((insertWorker name worker es).map Prod.fst).Perm (name :: es.map Prod.fst) := by
  induction es with
  | nil => exact List.Perm.refl _
  | cons e es ih =>
    rw [insertWorker]
    split
    · exact List.Perm.refl _
    · exact (List.Perm.cons e.1 ih).trans (List.Perm.swap name e.1 _)

/-- Changing a worker changes no name. -/
theorem names_update (g : Logging) (name : Bytes) (f : Worker → Worker) :
    (g.update name f).workers.map Prod.fst = g.workers.map Prod.fst := by
  show (g.workers.map _).map Prod.fst = _
  rw [List.map_map]
  refine List.map_congr_left fun e _ => ?_
  show (if e.1 = name then (e.1, f e.2) else e).1 = e.1
  split <;> rfl

/-- Changing a worker changes no other worker. -/
theorem lookup_update_of_ne {name other : Bytes} (h : other ≠ name) (g : Logging)
    (f : Worker → Worker) :
    (g.update name f).workers.lookup other = g.workers.lookup other := by
  show (g.workers.map _).lookup other = _
  induction g.workers with
  | nil => rfl
  | cons e es ih =>
    obtain ⟨n, w⟩ := e
    rw [List.map_cons]
    by_cases hn : n = name
    · rw [if_pos hn, lookup_cons_of_ne (hn ▸ h), lookup_cons_of_ne (hn ▸ h), ih]
    · rw [if_neg hn, List.lookup_cons, List.lookup_cons, ih]

/-- A worker that is removed is gone, the others are not. -/
theorem lookup_erase (g : Logging) (name other : Bytes) :
    (g.erase name).workers.lookup other
      = if other = name then none else g.workers.lookup other := by
  show (g.workers.filter _).lookup other = _
  -- Induction on the entries, each of which is kept or not.
  induction g.workers with
  | nil => simp
  | cons e es ih =>
    obtain ⟨n, w⟩ := e
    by_cases hn : n = name
    · rw [List.filter_cons_of_neg (by simpa using hn), ih]
      rcases eq_or_ne other name with ho | ho
      · rw [if_pos ho, if_pos ho]
      · rw [if_neg ho, if_neg ho, lookup_cons_of_ne (hn ▸ ho)]
    · rw [List.filter_cons_of_pos (by simpa using hn)]
      rcases eq_or_ne other name with rfl | ho
      · rw [lookup_cons_of_ne (Ne.symm hn), ih, if_pos rfl, if_pos rfl]
      · rw [if_neg ho] at ih ⊢
        rw [List.lookup_cons, List.lookup_cons, ih]

/-! ### One operation -/

@[simp] theorem workers_logOpeningMessage (g : Logging) (name : Bytes) (level : LogLevel) :
    (g.logOpeningMessage name level).workers = g.workers := by
  simp only [logOpeningMessage, workers_write, workers_logTime]

/-- The opening message goes to its sink, with two looks at the clock. -/
theorem outputs_logOpeningMessage (g : Logging) (name : Bytes) (level : LogLevel) :
    (g.logOpeningMessage name level).outputs name = g.outputs name
      ++ (LogEntry.opened level).text name (g.clock.headD []) (g.clock.tail.headD []) := by
  unfold logOpeningMessage
  simp only [outputs_write, outputs_logTime, clock_write, clock_logTime, LogEntry.text,
    List.append_assoc]

/-- The opening message goes to no other sink. -/
theorem outputs_logOpeningMessage_of_ne {name other : Bytes} (h : other ≠ name) (g : Logging)
    (level : LogLevel) : (g.logOpeningMessage name level).outputs other = g.outputs other := by
  unfold logOpeningMessage
  simp only [outputs_write_of_ne h, outputs_logTime_of_ne h]

@[simp] theorem outputs_tryEmplace (g : Logging) (name : Bytes) (level : LogLevel) :
    (g.tryEmplace name level).outputs = g.outputs := by
  unfold tryEmplace
  split <;> rfl

@[simp] theorem clock_addWorker (g : Logging) (name : Bytes) (level : LogLevel) :
    (g.addWorker name level).clock = g.clock.tail.tail := by
  unfold addWorker tryEmplace
  split <;> rfl

/-- The registry keeps a worker that it has. -/
theorem workers_addWorker (g : Logging) (name : Bytes) (level : LogLevel) :
    (g.addWorker name level).workers = if (g.workers.lookup name).isSome then g.workers
      else insertWorker name { level } g.workers := by
  rw [addWorker, tryEmplace, workers_logOpeningMessage]
  split
  · exact workers_logOpeningMessage g name level
  · rfl

/-- Behind `addWorker` the name has a worker: the one that was there, or the new one. -/
theorem lookup_addWorker (g : Logging) (name : Bytes) (level : LogLevel) (other : Bytes) :
    (g.addWorker name level).workers.lookup other
      = if other = name then some ((g.workers.lookup name).getD { level })
        else g.workers.lookup other := by
  rw [workers_addWorker]
  cases hlookup : g.workers.lookup name with
  | none =>
    rw [if_neg (by simp)]
    exact lookup_insertWorker hlookup _ other
  | some worker =>
    rw [if_pos Option.isSome_some]
    rcases eq_or_ne other name with rfl | ho
    · rw [if_pos rfl, hlookup, Option.getD_some]
    · rw [if_neg ho]

/-- It gives no name a second worker. -/
theorem nodup_addWorker {g : Logging} (h : (g.workers.map Prod.fst).Nodup) (name : Bytes)
    (level : LogLevel) : ((g.addWorker name level).workers.map Prod.fst).Nodup := by
  rw [workers_addWorker]
  cases hlookup : g.workers.lookup name with
  | none =>
    rw [if_neg (by simp)]
    apply (names_insertWorker name { level } g.workers).nodup_iff.mpr
    exact List.nodup_cons.mpr ⟨lookup_eq_none_iff_names.mp hlookup, h⟩
  | some worker =>
    rw [if_pos Option.isSome_some]
    exact h

/-- A change of the level is announced in the sink. -/
theorem outputs_changeLevel {g : Logging} {name : Bytes} {worker : Worker}
    (h : g.workers.lookup name = some worker) (level : LogLevel) :
    (g.changeLevel name level).outputs name = g.outputs name
      ++ (LogEntry.changed worker.level level).text name (g.clock.headD []) [] := by
  rw [changeLevel, h]
  show ((g.logTime name).write name _).outputs name = _
  simp only [outputs_write, outputs_logTime, LogEntry.text, List.append_assoc]

/-- A change of the level is announced in no other sink. -/
theorem outputs_changeLevel_of_ne {name other : Bytes} (h : other ≠ name) (g : Logging)
    (level : LogLevel) : (g.changeLevel name level).outputs other = g.outputs other := by
  unfold changeLevel
  cases g.workers.lookup name with
  | none => rfl
  | some worker =>
    show ((g.logTime name).write name _).outputs other = _
    rw [outputs_write_of_ne h, outputs_logTime_of_ne h]

/-- The level is that of the call, the other workers are as they were. -/
theorem lookup_changeLevel (g : Logging) (name : Bytes) (level : LogLevel) (other : Bytes) :
    (g.changeLevel name level).workers.lookup other
      = if other = name then (g.workers.lookup name).map fun w => { w with level }
        else g.workers.lookup other := by
  unfold changeLevel
  cases hlookup : g.workers.lookup name with
  | none =>
    show g.workers.lookup other = _
    rcases eq_or_ne other name with rfl | ho
    · rw [if_pos rfl, hlookup, Option.map_none]
    · rw [if_neg ho]
  | some worker =>
    rcases eq_or_ne other name with rfl | ho
    · rw [if_pos rfl, lookup_update, workers_write, workers_logTime, hlookup]
    · rw [if_neg ho, lookup_update_of_ne ho, workers_write, workers_logTime]

/-- No name comes or goes. -/
theorem names_changeLevel (g : Logging) (name : Bytes) (level : LogLevel) :
    (g.changeLevel name level).workers.map Prod.fst = g.workers.map Prod.fst := by
  unfold changeLevel
  cases g.workers.lookup name with
  | none => rfl
  | some worker => exact names_update _ name _

theorem clock_changeLevel (g : Logging) (name : Bytes) (level : LogLevel) :
    (g.changeLevel name level).clock <:+ g.clock := by
  unfold changeLevel
  cases g.workers.lookup name with
  | none => exact List.suffix_rfl
  | some worker => exact List.tail_suffix g.clock

/-- `setLevel` of a sink that is not there leaves all as it was. -/
theorem run_setLevel (g : Logging) (name : Bytes) (level : LogLevel) :
    (LogCall.setLevel name level).run g = g.changeLevel name level := by
  rw [LogCall.run, setLevel, changeLevel]
  cases g.workers.lookup name <;> rfl

/-! ### A message for everybody -/

/-- A worker writes to its own sink only. -/
theorem outputs_logTo_of_ne {name other : Bytes} (h : other ≠ name) (g : Logging)
    (level : LogLevel) (msg : Bytes) :
    (g.logTo name level msg).outputs other = g.outputs other := by
  unfold logTo
  split
  · rfl
  · split
    · rfl
    · rw [outputs_write_of_ne h, outputs_logTime_of_ne h]

theorem clock_logTo (g : Logging) (name : Bytes) (level : LogLevel) (msg : Bytes) :
    (g.logTo name level msg).clock <:+ g.clock := by
  unfold logTo
  split
  · exact List.suffix_rfl
  · split
    · exact List.suffix_rfl
    · exact List.tail_suffix g.clock

/-- A sink that is not there, or whose level is below that of the message. -/
theorem logTo_eq_self_of_silent {g : Logging} {name : Bytes} {level : LogLevel}
    (h : ∀ worker, g.workers.lookup name = some worker → worker.level.toNat < level.toNat)
    (msg : Bytes) : g.logTo name level msg = g := by
  cases hlookup : g.workers.lookup name with
  | none => rw [logTo, hlookup]
  | some worker => exact logTo_eq_self hlookup (h worker hlookup) msg

variable (level : LogLevel) (msg : Bytes)

theorem workers_foldl_logTo (names : List Bytes) (g : Logging) :
    (names.foldl (fun g n => g.logTo n level msg) g).workers = g.workers := by
  induction names generalizing g with
  | nil => rfl
  | cons n names ih => rw [List.foldl_cons, ih, logTo_workers]

theorem clock_foldl_logTo (names : List Bytes) (g : Logging) :
    (names.foldl (fun g n => g.logTo n level msg) g).clock <:+ g.clock := by
  induction names generalizing g with
  | nil => exact List.suffix_rfl
  | cons n names ih => exact (ih (g.logTo n level msg)).trans (clock_logTo g n level msg)

/-- A sink whose worker is not asked gets nothing. -/
theorem outputs_foldl_logTo_of_not_mem {names : List Bytes} {name : Bytes} (h : name ∉ names)
    (g : Logging) :
    (names.foldl (fun g n => g.logTo n level msg) g).outputs name = g.outputs name := by
  induction names generalizing g with
  | nil => rfl
  | cons n names ih =>
    obtain ⟨hn, hnames⟩ := List.ne_and_not_mem_of_not_mem_cons h
    rw [List.foldl_cons, ih hnames, outputs_logTo_of_ne hn]

/-- Each name is served once. -/
theorem outputs_foldl_logTo {names : List Bytes} (hnodup : names.Nodup) {name : Bytes}
    (hname : name ∈ names) (g : Logging) {worker : Worker}
    (h : g.workers.lookup name = some worker) (hlevel : level.toNat ≤ worker.level.toNat) :
    ∃ clock, clock <:+ g.clock ∧
      (names.foldl (fun g n => g.logTo n level msg) g).outputs name
        = g.outputs name ++ (LogEntry.message level msg).text name (clock.headD []) [] := by
  -- Induction on the workers: the one with that name comes once.
  induction names generalizing g with
  | nil => cases hname
  | cons n names ih =>
    obtain ⟨hn, hnodup⟩ := List.nodup_cons.mp hnodup
    rw [List.foldl_cons]
    rcases eq_or_ne name n with rfl | hne
    · refine ⟨g.clock, List.suffix_rfl, ?_⟩
      rw [outputs_foldl_logTo_of_not_mem level msg hn, logTo_eq h hlevel]
      simp only [outputs_write, outputs_logTime, LogEntry.text, List.append_assoc]
    · have hmem : name ∈ names := (List.mem_cons.mp hname).resolve_left hne
      obtain ⟨clock, hclock, hout⟩ :=
        ih hnodup hmem (g.logTo n level msg) (by rwa [logTo_workers])
      refine ⟨clock, hclock.trans (clock_logTo g n level msg), ?_⟩
      rw [hout, outputs_logTo_of_ne hne]

/-- A sink whose level is too low gets nothing. -/
theorem outputs_foldl_logTo_silent {name : Bytes} (names : List Bytes) (g : Logging)
    (h : ∀ worker, g.workers.lookup name = some worker → worker.level.toNat < level.toNat) :
    (names.foldl (fun g n => g.logTo n level msg) g).outputs name = g.outputs name := by
  induction names generalizing g with
  | nil => rfl
  | cons n names ih =>
    rw [List.foldl_cons, ih (g.logTo n level msg) (by rwa [logTo_workers])]
    rcases eq_or_ne name n with rfl | hne
    · rw [logTo_eq_self_of_silent h]
    · exact outputs_logTo_of_ne hne g level msg

variable {level}

/-- A message reaches once every sink whose level lets it through. -/
theorem outputs_log {g : Logging} (hnodup : (g.workers.map Prod.fst).Nodup) {name : Bytes}
    {worker : Worker} (h : g.workers.lookup name = some worker)
    (hlevel : level.toNat ≤ worker.level.toNat) :
    ∃ clock, clock <:+ g.clock ∧ (g.log level msg).outputs name
      = g.outputs name ++ (LogEntry.message level msg).text name (clock.headD []) [] := by
  have hmem : name ∈ g.workers.map Prod.fst := by
    by_contra hno
    rw [lookup_eq_none_iff_names.mpr hno] at h
    cases h
  exact outputs_foldl_logTo level msg hnodup hmem g h hlevel

/-- A message reaches no sink whose level keeps it out. -/
theorem outputs_log_silent {g : Logging} {name : Bytes}
    (h : ∀ worker, g.workers.lookup name = some worker → worker.level.toNat < level.toNat) :
    (g.log level msg).outputs name = g.outputs name :=
  outputs_foldl_logTo_silent level msg _ g h

end Logging

/-! ### The registry keeps to the sinks -/

/-- What the clock shows is nothing, or a time to come. -/
theorem headD_mem {clock clock' : List Bytes} (h : clock' <:+ clock) :
    clock'.headD [] ∈ [] :: clock := by
  cases clock' with
  | nil => exact List.mem_cons_self
  | cons time clock' => exact List.mem_cons_of_mem _ (h.subset List.mem_cons_self)

section

variable {g₀ g g' : Logging} {name : Bytes} {s : Sink}

/-- The sink is as it was where its worker and its text are. -/
theorem HasSink.of_same (h : HasSink g₀ g name s)
    (hlookup : g'.workers.lookup name = g.workers.lookup name)
    (hout : g'.outputs name = g.outputs name) : HasSink g₀ g' name s where
  level := by rw [hlookup, h.level]
  written := by
    rw [hout]
    exact h.written

/-- One entry more, with times from the clock. -/
theorem HasSink.concat (h : HasSink g₀ g name s) {e : LogEntry} {time time' : Bytes}
    (htime : time ∈ [] :: g₀.clock) (htime' : time' ∈ [] :: g₀.clock) {level : Option LogLevel}
    (hlevel : (g'.workers.lookup name).map Worker.level = level)
    (hout : g'.outputs name = g.outputs name ++ e.text name time time') :
    HasSink g₀ g' name ⟨level, s.entries ++ [e]⟩ where
  level := hlevel
  written := by
    obtain ⟨text, htext, hwritten⟩ := h.written
    refine ⟨_, ?_, hwritten.concat e htime htime'⟩
    rw [hout, htext, List.append_assoc]

end

section

variable {g₀ g : Logging} {sinks : Bytes → Sink}

/-- `addWorker` is a step of every sink. -/
theorem KeepsTo.addWorker (h : KeepsTo g₀ g sinks) (name : Bytes) (level : LogLevel) :
    KeepsTo g₀ (g.addWorker name level) fun other =>
      (sinks other).step other (.addWorker name level) where
  nodup := nodup_addWorker h.nodup name level
  clock := by
    rw [clock_addWorker]
    exact ((List.tail_suffix _).trans (List.tail_suffix _)).trans h.clock
  sink := by
    intro other
    rcases eq_or_ne other name with rfl | ho
    · -- The sink itself: its opening message, with two looks at the clock.
      have htime : g.clock.headD [] ∈ [] :: g₀.clock := headD_mem h.clock
      have htime' : g.clock.tail.headD [] ∈ [] :: g₀.clock :=
        headD_mem ((List.tail_suffix _).trans h.clock)
      rw [Sink.step, if_pos rfl]
      apply (h.sink other).concat htime htime'
      · rw [lookup_addWorker, if_pos rfl, ← (h.sink other).level]
        cases g.workers.lookup other <;> rfl
      · rw [Logging.addWorker, outputs_tryEmplace]
        exact outputs_logOpeningMessage g other level
    · rw [Sink.step_of_ne rfl (Ne.symm ho)]
      apply (h.sink other).of_same
      · rw [lookup_addWorker, if_neg ho]
      · rw [Logging.addWorker, outputs_tryEmplace, outputs_logOpeningMessage_of_ne ho]

/-- A change of the level is a step of every sink. -/
theorem KeepsTo.changeLevel (h : KeepsTo g₀ g sinks) (name : Bytes) (level : LogLevel) :
    KeepsTo g₀ (g.changeLevel name level) fun other =>
      (sinks other).step other (.setLevel name level) where
  nodup := by
    rw [names_changeLevel]
    exact h.nodup
  clock := (clock_changeLevel g name level).trans h.clock
  sink := by
    intro other
    have hlevel := (h.sink other).level
    rcases eq_or_ne other name with rfl | ho
    · -- The sink itself, if it is registered.
      cases hlookup : g.workers.lookup other with
      | none =>
        rw [hlookup] at hlevel
        rw [Sink.step_setLevel_none hlevel.symm, Logging.changeLevel, hlookup]
        exact h.sink other
      | some worker =>
        rw [hlookup] at hlevel
        rw [Sink.step_setLevel hlevel.symm]
        apply (h.sink other).concat (headD_mem h.clock) List.mem_cons_self
        · rw [lookup_changeLevel, if_pos rfl, hlookup]
          rfl
        · exact outputs_changeLevel hlookup level
    · rw [Sink.step_of_ne rfl (Ne.symm ho)]
      apply (h.sink other).of_same
      · rw [lookup_changeLevel, if_neg ho]
      · exact outputs_changeLevel_of_ne ho g level

/-- `removeWorker` is a step of every sink. -/
theorem KeepsTo.removeWorker (h : KeepsTo g₀ g sinks) (name : Bytes) :
    KeepsTo g₀ (g.removeWorker name) fun other =>
      (sinks other).step other (.removeWorker name) where
  nodup := h.nodup.sublist (List.filter_sublist.map Prod.fst)
  clock := h.clock
  sink := by
    intro other
    rcases eq_or_ne other name with rfl | ho
    · rw [Sink.step, if_pos rfl]
      refine ⟨?_, (h.sink other).written⟩
      rw [Logging.removeWorker, lookup_erase, if_pos rfl]
      rfl
    · rw [Sink.step_of_ne rfl (Ne.symm ho)]
      refine (h.sink other).of_same ?_ rfl
      rw [Logging.removeWorker, lookup_erase, if_neg ho]

/-- A LOG is a step of every sink. -/
theorem KeepsTo.log (h : KeepsTo g₀ g sinks) (level : LogLevel) (msg : Bytes) :
    KeepsTo g₀ (g.log level msg) fun other => (sinks other).step other (.log level msg) where
  nodup := by
    rw [Logging.log, workers_foldl_logTo]
    exact h.nodup
  clock := (clock_foldl_logTo level msg _ g).trans h.clock
  sink := by
    intro other
    have hlevel := (h.sink other).level
    have hlookup' : (g.log level msg).workers.lookup other = g.workers.lookup other := by
      rw [Logging.log, workers_foldl_logTo]
    by_cases henabled : ∃ worker, g.workers.lookup other = some worker ∧
        level.toNat ≤ worker.level.toNat
    · -- A sink whose level lets the message through,
      obtain ⟨worker, hlookup, hle⟩ := henabled
      obtain ⟨clock, hclock, hout⟩ := outputs_log msg h.nodup hlookup hle
      rw [hlookup] at hlevel
      rw [Sink.step_log hlevel.symm hle, hlevel.symm]
      apply (h.sink other).concat (headD_mem (hclock.trans h.clock)) List.mem_cons_self _ hout
      rw [hlookup', hlookup]
    · -- and one that stays as it is.
      have hsilent : ∀ worker, g.workers.lookup other = some worker →
          worker.level.toNat < level.toNat := by
        intro worker hlookup
        by_contra hle
        exact henabled ⟨worker, hlookup, Nat.not_lt.mp hle⟩
      rw [Sink.step_log_silent]
      · exact (h.sink other).of_same hlookup' (outputs_log_silent msg hsilent)
      · intro inForce hinForce
        rw [← hlevel] at hinForce
        obtain ⟨worker, hlookup, rfl⟩ := Option.map_eq_some_iff.mp hinForce
        exact hsilent worker hlookup

/-- **Every call** leaves the registry so. -/
theorem KeepsTo.run (h : KeepsTo g₀ g sinks) (call : LogCall) :
    KeepsTo g₀ (call.run g) fun name => (sinks name).step name call := by
  cases call with
  | log level msg => exact h.log level msg
  | addWorker name level => exact h.addWorker name level
  | setLevel name level =>
    rw [run_setLevel]
    exact h.changeLevel name level
  | removeWorker name => exact h.removeWorker name

end

/-! ### Histories -/

/-- The last call is made last. -/
theorem runCalls_concat (calls : List LoggerCall) (call : LoggerCall) (g : Logging) :
    runCalls (calls ++ [call]) g = call.run (runCalls calls g) := List.foldl_concat ..

/-- The last call is the last step of a sink. -/
theorem sinkAfter_concat (name : Bytes) (calls : List LoggerCall) (call : LoggerCall) :
    sinkAfter name (calls ++ [call]) = (sinkAfter name calls).step name call.toWorkers :=
  List.foldl_concat ..

/-- The last call adds what it delivers. -/
theorem deliveries_concat (name : Bytes) (calls : List LoggerCall) (call : LoggerCall)
    (g : Logging) : deliveries name g (calls ++ [call])
      = deliveries name g calls ++ letThrough (runCalls calls g) name call.toWorkers := by
  induction calls generalizing g with
  | nil => exact List.append_nil _
  | cons c calls ih =>
    show _ ++ deliveries name (c.run g) (calls ++ [call]) = _
    rw [ih, ← List.append_assoc]
    rfl

/-- **After any history** from an empty registry. -/
theorem keepsTo_runCalls {g₀ : Logging} (h : g₀.workers = []) (calls : List LoggerCall) :
    KeepsTo g₀ (runCalls calls g₀) fun name => sinkAfter name calls := by
  induction calls using List.reverseRecOn with
  | nil =>
    refine ⟨?_, List.suffix_rfl, fun name => ⟨?_, [], ?_, .nil⟩⟩
    · show (g₀.workers.map Prod.fst).Nodup
      simp [h]
    · show (g₀.workers.lookup name).map Worker.level = none
      simp [h]
    · exact (List.append_nil _).symm
  | append_singleton calls call ih =>
    simp only [runCalls_concat, sinkAfter_concat]
    exact ih.run call.toWorkers

/-- The messages among the entries of a sink are those that get through to it. -/
theorem logged_step {g : Logging} {name : Bytes} {s : Sink}
    (h : (g.workers.lookup name).map Worker.level = s.level) (call : LogCall) :
    (s.step name call).entries.filterMap LogEntry.logged
      = s.entries.filterMap LogEntry.logged ++ letThrough g name call := by
  -- Opening, changing and removing write nothing that counts as a message.
  cases call with
  | addWorker name' level =>
    show _ = _ ++ []
    rw [Sink.step]
    split <;> simp [LogEntry.logged]
  | setLevel name' level =>
    show _ = _ ++ []
    rw [Sink.step]
    cases s.level with
    | none => simp
    | some old =>
      dsimp only
      split <;> simp [LogEntry.logged]
  | removeWorker name' =>
    show _ = _ ++ []
    rw [Sink.step]
    split <;> simp
  | log level msg =>
    simp only [Sink.step, letThrough, ← h]
    cases g.workers.lookup name with
    | none => simp
    | some worker =>
      dsimp only [Option.map_some]
      split <;> simp [LogEntry.logged]

/-- The messages among a sink's entries are what it has been given. -/
theorem logged_sinkAfter {g₀ : Logging} (h : g₀.workers = []) (name : Bytes)
    (calls : List LoggerCall) :
    (sinkAfter name calls).entries.filterMap LogEntry.logged = deliveries name g₀ calls := by
  induction calls using List.reverseRecOn with
  | nil => rfl
  | append_singleton calls call ih =>
    rw [sinkAfter_concat, deliveries_concat, ← ih]
    exact logged_step ((keepsTo_runCalls h calls).sink name).level call.toWorkers

/-- A call about one sink leaves the level and the text of every other as they are. -/
theorem run_of_ne {call : LogCall} {name other : Bytes} (h : call.sink = some name)
    (hne : other ≠ name) (g : Logging) :
    (call.run g).workers.lookup other = g.workers.lookup other ∧
      (call.run g).outputs other = g.outputs other := by
  -- A LOG concerns every sink; the others concern the one they name.
  cases call with
  | log level msg => cases h
  | addWorker name' level =>
    obtain rfl : name' = name := Option.some.inj h
    show (g.addWorker name' level).workers.lookup other = _ ∧
      (g.addWorker name' level).outputs other = _
    constructor
    · rw [lookup_addWorker, if_neg hne]
    · rw [addWorker, outputs_tryEmplace, outputs_logOpeningMessage_of_ne hne]
  | setLevel name' level =>
    obtain rfl : name' = name := Option.some.inj h
    rw [run_setLevel]
    constructor
    · rw [lookup_changeLevel, if_neg hne]
    · exact outputs_changeLevel_of_ne hne g level
  | removeWorker name' =>
    obtain rfl : name' = name := Option.some.inj h
    show (g.erase name').workers.lookup other = _ ∧ _
    exact ⟨by rw [lookup_erase, if_neg hne], rfl⟩

/-- **What a history leaves**: every sink has the level and the entries that it has by itself, and
    the messages among them are those that were let through; and what the next call may change. -/
structure Delivers (g₀ : Logging) (calls : List LoggerCall) (g : Logging) : Prop where
  sink : ∀ name, HasSink g₀ g name (sinkAfter name calls)
  messages : ∀ name,
    (sinkAfter name calls).entries.filterMap LogEntry.logged = deliveries name g₀ calls
  others : ∀ (call : LoggerCall) (name other : Bytes),
    call.toWorkers.sink = some name → other ≠ name →
      (call.run g).workers.lookup other = g.workers.lookup other ∧
        (call.run g).outputs other = g.outputs other
  added : ∀ (call : LoggerCall) (name : Bytes) (level : LogLevel) (worker : Worker),
    call.toWorkers = .addWorker name level → g.workers.lookup name = some worker →
      (call.run g).workers.lookup name = some worker
  unregistered : ∀ (call : LoggerCall) (name : Bytes) (level : LogLevel),
    call.toWorkers = .setLevel name level → g.workers.lookup name = none →
      g.setLevel name level = .error .outOfRange ∧ call.run g = g

/-- **Log delivery**, over any history. -/
theorem log_delivery (outputs : Bytes → Bytes) (clock : List Bytes) (calls : List LoggerCall) :
    let g₀ : Logging := { workers := [], outputs, clock }
    Delivers g₀ calls (runCalls calls g₀) where
  sink := (keepsTo_runCalls rfl calls).sink
  messages := fun name => logged_sinkAfter rfl name calls
  others := fun call name other h hne => run_of_ne h hne _
  added := by
    intro call name level worker hcall hworker
    rw [LoggerCall.run, hcall]
    show (addWorker _ name level).workers.lookup name = _
    rw [lookup_addWorker, if_pos rfl, hworker, Option.getD_some]
  unregistered := by
    intro call name level hcall hnone
    rw [LoggerCall.run, hcall, run_setLevel, setLevel, changeLevel, hnone]
    exact ⟨rfl, rfl⟩

/-! ### The level announced -/

/-- The level that an entry announces. -/
def LogEntry.announces : LogEntry → Option LogLevel
  | .opened level => some level
  | .changed _ new => some new
  | .message _ _ => none

/-- The last level announced. -/
def announced (es : List LogEntry) : Option LogLevel := (es.filterMap LogEntry.announces).getLast?

/-- The level that a registered sink has announced last, in the entries that its text consists of,
    is the one it filters at. -/
def AnnouncesInForce (g₀ : Logging) (calls : List LoggerCall) : Prop :=
  ∀ name worker, (runCalls calls g₀).workers.lookup name = some worker →
    HasSink g₀ (runCalls calls g₀) name (sinkAfter name calls) ∧
      announced (sinkAfter name calls).entries = some worker.level

/-- A sink that is there is not added with a level other than the one in force. -/
def AddsAlike (g : Logging) (call : LoggerCall) : Prop :=
  ∀ name level worker, call.toWorkers = .addWorker name level →
    g.workers.lookup name = some worker → worker.level = level

/-- The last level announced is that of the last entry, if it announces one. -/
theorem announced_concat (es : List LogEntry) (e : LogEntry) :
    announced (es ++ [e]) = e.announces.or (announced es) := by
  rw [announced, List.filterMap_append, List.getLast?_append]
  cases h : e.announces with
  | none => simp [h, announced]
  | some level => simp [h]

/-- One call: a sink that has announced the level in force goes on doing so, unless it is added
    with another. -/
theorem announced_step {name : Bytes} {s : Sink} {call : LogCall}
    (h : ∀ level, s.level = some level → announced s.entries = some level)
    (hcall : ∀ level inForce, call = .addWorker name level → s.level = some inForce →
      inForce = level) :
    ∀ level, (s.step name call).level = some level →
      announced (s.step name call).entries = some level := by
  cases call with
  | addWorker name' level =>
    rcases eq_or_ne name' name with rfl | hne
    · intro l hl
      rw [Sink.step, if_pos rfl] at hl ⊢
      -- An opening message announces the level of the call, which is the one in force.
      have hlevel : s.level.getD level = level := by
        cases hs : s.level with
        | none => rfl
        | some inForce => exact hcall level inForce rfl hs
      rw [announced_concat, ← hl, hlevel]
      rfl
    · rwa [Sink.step_of_ne rfl hne]
  | setLevel name' level =>
    rcases eq_or_ne name' name with rfl | hne
    · cases hs : s.level with
      | none => rwa [Sink.step_setLevel_none hs]
      | some old =>
        intro l hl
        rw [Sink.step_setLevel hs] at hl ⊢
        rw [announced_concat, ← hl]
        rfl
    · rwa [Sink.step_of_ne rfl hne]
  | removeWorker name' =>
    rcases eq_or_ne name' name with rfl | hne
    · intro l hl
      rw [Sink.step, if_pos rfl] at hl
      cases hl
    · rwa [Sink.step_of_ne rfl hne]
  | log level msg =>
    by_cases henabled : ∃ inForce, s.level = some inForce ∧ level.toNat ≤ inForce.toNat
    · -- A message announces nothing.
      obtain ⟨inForce, hs, hle⟩ := henabled
      intro l hl
      rw [Sink.step_log hs hle] at hl ⊢
      rw [announced_concat]
      exact h l hl
    · rwa [Sink.step_log_silent]
      intro inForce hs
      by_contra hle
      exact henabled ⟨inForce, hs, Nat.not_lt.mp hle⟩

/-- A whole history in which the sinks are added alike. -/
theorem announced_sinkAfter {g₀ : Logging} (hempty : g₀.workers = []) {calls : List LoggerCall}
    (h : ∀ before call, before ++ [call] <+: calls → AddsAlike (runCalls before g₀) call)
    (name : Bytes) :
    ∀ level, (sinkAfter name calls).level = some level →
      announced (sinkAfter name calls).entries = some level := by
  induction calls using List.reverseRecOn with
  | nil =>
    intro level hlevel
    cases hlevel
  | append_singleton calls call ih =>
    have ih' := ih fun before c hpre => h before c (hpre.trans (List.prefix_append _ _))
    rw [sinkAfter_concat]
    apply announced_step ih'
    intro level inForce hcall hs
    rw [← ((keepsTo_runCalls hempty calls).sink name).level] at hs
    obtain ⟨worker, hworker, rfl⟩ := Option.map_eq_some_iff.mp hs
    exact h calls call List.prefix_rfl name level worker hcall hworker

/-- **A log announces the level in force**, in every state that a history goes through, exactly
    when no sink is added anew with another level than it has. -/
theorem announcesInForce_iff (outputs : Bytes → Bytes) (clock : List Bytes)
    (calls : List LoggerCall) :
    let g₀ : Logging := { workers := [], outputs, clock }
    (∀ before, before <+: calls → AnnouncesInForce g₀ before) ↔
      ∀ before call, before ++ [call] <+: calls → AddsAlike (runCalls before g₀) call := by
  intro g₀
  have hempty : g₀.workers = [] := rfl
  have hkeeps := keepsTo_runCalls hempty
  constructor
  · intro h before call hprefix name level worker hcall hworker
    -- The call that adds a sink announces its own level last.
    have hadded : ((call.run (runCalls before g₀))).workers.lookup name = some worker := by
      rw [LoggerCall.run, hcall]
      show (addWorker _ name level).workers.lookup name = _
      rw [lookup_addWorker, if_pos rfl, hworker, Option.getD_some]
    rw [← runCalls_concat] at hadded
    have hlast := (h _ hprefix name worker hadded).2
    rw [sinkAfter_concat, hcall, Sink.step, if_pos rfl, announced_concat] at hlast
    exact (Option.some.inj hlast).symm
  · intro h before hprefix name worker hworker
    -- Every entry announces what it puts in force, by induction on the history.
    have hsink := (hkeeps before).sink name
    refine ⟨hsink, ?_⟩
    have hlevel := hsink.level
    rw [hworker] at hlevel
    have hbefore : ∀ before' call, before' ++ [call] <+: before →
        AddsAlike (runCalls before' g₀) call :=
      fun before' call hpre => h before' call (hpre.trans hprefix)
    exact announced_sinkAfter hempty hbefore name worker.level hlevel.symm

/-- A file opened for `INFO` and once more for `DEBUG`: the last line of the log says `DEBUG`, but
    the worker that has been kept filters at `INFO`. -/
theorem announcesInForce_counterexample :
    let g₀ : Logging :=
      { workers := [], outputs := fun _ => [],
        clock := List.replicate 4 (bytes "2024-12-09 12:00:00.042") }
    let calls := [LoggerCall.addFile (bytes "x") .INFO, .addFile (bytes "x") .DEBUG]
    (runCalls calls g₀).workers.lookup (bytes "x") = some { level := .INFO } ∧
      bytes "Opening \"x\" for logging at level DEBUG\n"
        <:+ (runCalls calls g₀).outputs (bytes "x") ∧
      ¬ AnnouncesInForce g₀ calls := by
  intro g₀ calls
  have hworker : (runCalls calls g₀).workers.lookup (bytes "x") = some { level := .INFO } := by
    decide
  refine ⟨hworker, by decide, ?_⟩
  intro h
  have hlast := (h (bytes "x") _ hworker).2
  revert hlast
  decide

end Evaluation
