import Mathlib.Data.List.Basic
import Evaluation.Lib.Interrupt
import Evaluation.CxxLib

namespace Evaluation

open Lib

/-!
# The logger

The class of `Logger.h` / `Logger.cpp`: a registry of workers, one for each sink, behind a
`shared_mutex`; each worker has a level and a mutex of its own.  Sinks are named by their path, the
console by the empty one.  What a sink has been given stays when its worker goes, so the texts are
kept by name.

* `Logging` — the registry with its locks, the texts, and what `current_time` will return;
* `Logger.message` — the message that a `LOG` builds;
* `Logging.log`, `Logging.addWorker`, `Logging.setLevel`, `Logging.removeWorker` — the operations,
  when nothing comes between.
-/

inductive LogLevel where
  | CRITICAL
  | ERROR
  | WARN
  | INFO
  | DEBUG
  | TRACE
  deriving DecidableEq, Repr

/-- The enumerator as a `char`. -/
def LogLevel.toNat : LogLevel → ℕ
  | .CRITICAL => 0
  | .ERROR => 1
  | .WARN => 2
  | .INFO => 3
  | .DEBUG => 4
  | .TRACE => 5

def toStr : LogLevel → Bytes
  | .CRITICAL => bytes "CRITICAL"
  | .ERROR => bytes "ERROR"
  | .WARN => bytes "WARN"
  | .INFO => bytes "INFO"
  | .DEBUG => bytes "DEBUG"
  | .TRACE => bytes "TRACE"

def levelFmtWidth : ℕ := 8
def timeFmtWidth : ℕ := 25
def fullHeaderWidth : ℕ := 100

namespace Logger

/-- The header that the constructor writes, with `std::setw` on the level; `file` is the last
    part of the path. -/
def header (level : LogLevel) (file : Bytes) (line : ℕ) (function : Bytes) : Bytes :=
  bytes "[" ++ List.replicate (levelFmtWidth - (toStr level).length) space ++ toStr level
    ++ bytes "] " ++ file ++ bytes ":" ++ toDecimal line ++ bytes " in " ++ function ++ bytes "(): "

/-- What the destructor hands to `Workers::log`. -/
def message (level : LogLevel) (file : Bytes) (line : ℕ) (function text : Bytes) : Bytes :=
  (header level file line function ++ text).filter fun c => c != carriageReturn

end Logger

/-- A `std::shared_mutex`: who holds it, alone or together with others. -/
structure SharedMutex where
  owner : Option Context := none
  readers : List Context := []
  deriving DecidableEq, Repr

/-- A worker: its level, and who holds its mutex. -/
structure Worker where
  level : LogLevel
  holder : Option Context := none
  deriving DecidableEq, Repr

/-- The registry, its entries in the order of their names, and its mutex; what each sink has been
    given; and the times to come. -/
structure Logging where
  workers : List (Bytes × Worker)
  mutex : SharedMutex := {}
  outputs : Bytes → Bytes
  clock : List Bytes

namespace Logging

/-- Write to the stream of a sink. -/
def write (g : Logging) (name text : Bytes) : Logging :=
  { g with outputs := Function.update g.outputs name (g.outputs name ++ text) }

def logTime (g : Logging) (name : Bytes) : Logging :=
  { g.write name (g.clock.headD [] ++ bytes " | ") with clock := g.clock.tail }

def logOpeningMessage (g : Logging) (name : Bytes) (level : LogLevel) : Logging :=
  let location := if name = [] then bytes "Console" else name
  let g := g.write name (List.replicate timeFmtWidth 45 ++ [newline])
  let g := (g.logTime name).write name
    (List.replicate (fullHeaderWidth - timeFmtWidth) 45 ++ [newline])
  (g.logTime name).write name (bytes "Opening \"" ++ location
    ++ bytes "\" for logging at level " ++ toStr level ++ [newline])

/-- The console has colours. -/
def logColor (name : Bytes) (level : LogLevel) : Bytes :=
  if name ≠ [] then []
  else match level with
    | .CRITICAL => 27 :: bytes "[31;1m"
    | .ERROR => 27 :: bytes "[31m"
    | .WARN => 27 :: bytes "[33m"
    | .INFO => []
    | .DEBUG => 27 :: bytes "[2m"
    | .TRACE => 27 :: bytes "[2;3m"

def resetColor (name : Bytes) : Bytes := if name ≠ [] then [] else 27 :: bytes "[0m"

/-- The trailing newlines are taken off the view.  (On a view of nothing but newlines, which no
    message is, `back` would be called on an empty one.) -/
def stripNewlines (msg : Bytes) : Bytes := (msg.reverse.dropWhile fun c => c == newline).reverse

/-- What stands in front of a further line. -/
def continuation : Bytes :=
  List.replicate (timeFmtWidth + levelFmtWidth + 3) space ++ bytes "-> "

/-- The loop over the lines of a message, from a position on. -/
def logLines (msg : Bytes) (start : ℕ) : Bytes :=
  if start < msg.length then
    -- Without a further newline the line goes to the end.
    let stop := start + ((msg.drop start).findIdx? (· == newline)).getD (msg.length - start)
    (if 0 < start then continuation else []) ++ (msg.drop start).take (stop - start + 1)
      ++ logLines msg (stop + 1)
  else []
  termination_by msg.length - start

/-- `Worker::log` behind its lock. -/
def logTo (g : Logging) (name : Bytes) (level : LogLevel) (msg : Bytes) : Logging :=
  match g.workers.lookup name with
  | none => g
  | some worker =>
    if worker.level.toNat < level.toNat then g
    else (g.logTime name).write name
      (logColor name level ++ logLines (stripNewlines msg) 0 ++ resetColor name ++ [newline])

/-- A worker changes. -/
def update (g : Logging) (name : Bytes) (f : Worker → Worker) : Logging :=
  { g with workers := g.workers.map fun e => if e.1 = name then (e.1, f e.2) else e }

/-- `Worker::setLevel` behind its lock. -/
def changeLevel (g : Logging) (name : Bytes) (level : LogLevel) : Logging :=
  match g.workers.lookup name with
  | none => g
  | some worker =>
    ((g.logTime name).write name (bytes "Changing log level from " ++ toStr worker.level
      ++ bytes " to " ++ toStr level ++ [newline])).update name fun w => { w with level }

/-- An entry in its place in the map. -/
def insertWorker (name : Bytes) (worker : Worker) : List (Bytes × Worker) → List (Bytes × Worker)
  | [] => [(name, worker)]
  | e :: es =>
    if name < e.1 then (name, worker) :: e :: es else e :: insertWorker name worker es

/-- `try_emplace`, which keeps an entry that is there. -/
def tryEmplace (g : Logging) (name : Bytes) (level : LogLevel) : Logging :=
  if (g.workers.lookup name).isSome then g
  else { g with workers := insertWorker name { level } g.workers }

def erase (g : Logging) (name : Bytes) : Logging :=
  { g with workers := g.workers.filter fun e => e.1 ≠ name }

/-! ### The operations -/

/-- `Workers::log`. -/
def log (g : Logging) (level : LogLevel) (msg : Bytes) : Logging :=
  (g.workers.map Prod.fst).foldl (fun g name => g.logTo name level msg) g

/-- `Workers::addWorker`: the new worker is made, and announces itself, before the registry keeps
    or refuses it. -/
def addWorker (g : Logging) (name : Bytes) (level : LogLevel) : Logging :=
  (g.logOpeningMessage name level).tryEmplace name level

/-- `Workers::setLevel`. -/
def setLevel (g : Logging) (name : Bytes) (level : LogLevel) : Except Exn Logging :=
  match g.workers.lookup name with
  | none => .error .outOfRange
  | some _ => .ok (g.changeLevel name level)

/-- `Workers::removeWorker`. -/
def removeWorker (g : Logging) (name : Bytes) : Logging := g.erase name

/-! ### What is written, and where -/

@[simp] theorem workers_write (g : Logging) (name text : Bytes) :
    (g.write name text).workers = g.workers := rfl

@[simp] theorem workers_logTime (g : Logging) (name : Bytes) :
    (g.logTime name).workers = g.workers := rfl

@[simp] theorem clock_write (g : Logging) (name text : Bytes) :
    (g.write name text).clock = g.clock := rfl

@[simp] theorem clock_logTime (g : Logging) (name : Bytes) :
    (g.logTime name).clock = g.clock.tail := rfl

@[simp] theorem outputs_write (g : Logging) (name text : Bytes) :
    (g.write name text).outputs name = g.outputs name ++ text := Function.update_self ..

@[simp] theorem outputs_logTime (g : Logging) (name : Bytes) :
    (g.logTime name).outputs name = g.outputs name ++ (g.clock.headD [] ++ bytes " | ") :=
  outputs_write g name _

/-- Inserting into a stream leaves the others as they are. -/
theorem outputs_write_of_ne {name other : Bytes} (h : other ≠ name) (g : Logging) (text : Bytes) :
    (g.write name text).outputs other = g.outputs other := Function.update_of_ne h ..

/-- A stamp leaves the other streams as they are. -/
theorem outputs_logTime_of_ne {name other : Bytes} (h : other ≠ name) (g : Logging) :
    (g.logTime name).outputs other = g.outputs other := outputs_write_of_ne h g _

/-- A worker whose level is at least that of the message writes it. -/
theorem logTo_eq {g : Logging} {name : Bytes} {worker : Worker} {level : LogLevel}
    (h : g.workers.lookup name = some worker) (hlevel : level.toNat ≤ worker.level.toNat)
    (msg : Bytes) :
    g.logTo name level msg = (g.logTime name).write name
      (logColor name level ++ logLines (stripNewlines msg) 0 ++ resetColor name ++ [newline]) := by
  rw [logTo, h]
  exact if_neg (Nat.not_lt.mpr hlevel)

/-- A worker whose level is below it does not. -/
theorem logTo_eq_self {g : Logging} {name : Bytes} {worker : Worker} {level : LogLevel}
    (h : g.workers.lookup name = some worker) (hlevel : worker.level.toNat < level.toNat)
    (msg : Bytes) : g.logTo name level msg = g := by
  rw [logTo, h]
  exact if_pos hlevel

end Logging

end Evaluation
