import Evaluation.Logger
import Evaluation.Lib.Text

namespace Evaluation

open Lib Logging

/-!
# What a log entry looks like

`Worker::log` writes one block for each message: the time, a bar, and the message, line by line,
with blanks and an arrow in front of each line but the first.  Whatever bytes have been streamed
into the `LOG`, the block can be read back, and none of its lines but the first can pass for the
start of another entry.

* `currentTime` — the text of `current_time`;
* `stripLoop` — the loop that takes the trailing newlines off, with its calls of `back`;
* `logLines_eq` — the lines of a message, joined by a newline and the prefix;
* `unformat` — a block without its time and its prefixes;
* `Logging.logTo_file` — what a file worker writes for a `LOG`.
-/

/-- `std::setw(width)` with `std::setfill('0')`. -/
def zeroPadded (width n : ℕ) : Bytes :=
  List.replicate (width - (toDecimal n).length) 48 ++ toDecimal n

/-- What `gettimeofday` and `localtime_r` have returned. -/
structure LocalTime where
  year : ℕ
  month : ℕ
  day : ℕ
  hour : ℕ
  minute : ℕ
  second : ℕ
  usec : ℕ
  deriving DecidableEq, Repr

/-- `current_time`: `%F %T`, a dot, and the milliseconds. -/
def currentTime (t : LocalTime) : Bytes :=
  toDecimal t.year ++ bytes "-" ++ zeroPadded 2 t.month ++ bytes "-" ++ zeroPadded 2 t.day
    ++ bytes " " ++ zeroPadded 2 t.hour ++ bytes ":" ++ zeroPadded 2 t.minute ++ bytes ":"
    ++ zeroPadded 2 t.second ++ bytes "." ++ zeroPadded 3 (t.usec / 1000)

/-- The loop that takes the trailing newlines off the view; nothing when it calls `back` on an
    empty one. -/
def stripLoop (msg : Bytes) : Option Bytes :=
  if h : msg = [] then none
  else if msg.getLast h = newline then stripLoop msg.dropLast
  else some msg
  termination_by msg.length
  decreasing_by
    have hpos := List.length_pos_of_ne_nil h
    rw [List.length_dropLast]
    omega

/-- The bar behind the time. -/
def bar : UInt8 := 124

/-- A block without the time, the bar and a blank on its first line, and without the prefix on
    every other. -/
def unformat (block : Bytes) : Bytes :=
  match linesOf newline block with
  | [] => []
  | first :: further =>
    [newline].intercalate
      ((afterLine bar first).tail :: further.map (List.drop continuation.length))

/-- **One entry**: it starts with a time, every further line starts with the prefix and with no
    time, there is one newline at the end, and the text can be read back. -/
structure IsEntry (time text block : Bytes) : Prop where
  first : ∃ l, (linesOf newline block).head? = some (time ++ bytes " | " ++ l)
  further : ∀ l ∈ (linesOf newline block).tail, continuation <+: l
  unforged : ∀ l ∈ (linesOf newline block).tail, ∀ t, ¬ currentTime t <+: l
  ends : ∃ body, block = body ++ [newline] ∧ body.getLast? ≠ some newline
  text : unformat block = text

/-! ### The time -/

/-- Zeros and digits are digits. -/
theorem isdigit_of_mem_zeroPadded {width n : ℕ} {c : UInt8} (h : c ∈ zeroPadded width n) :
    isdigit c = true := by
  rcases List.mem_append.mp h with hzero | hdigit
  · rw [List.eq_of_mem_replicate hzero]
    rfl
  · exact isdigit_of_mem_toDecimal hdigit

/-- There are digits in it, and some punctuation. -/
theorem of_mem_currentTime {t : LocalTime} {c : UInt8} (h : c ∈ currentTime t) :
    isdigit c = true ∨ c ∈ bytes "-:. " := by
  simp only [currentTime, List.mem_append, or_assoc] at h
  rcases h with h | h | h | h | h | h | h | h | h | h | h | h | h
  all_goals first
    | exact .inl (isdigit_of_mem_toDecimal h)
    | exact .inl (isdigit_of_mem_zeroPadded h)
    | rw [List.mem_singleton.mp h]
      exact .inr (by decide)

/-- The time is made of digits and four punctuation marks. -/
theorem not_mem_currentTime (t : LocalTime) {c : UInt8} (hdigit : isdigit c = false)
    (hpunct : c ∉ bytes "-:. ") : c ∉ currentTime t := by
  intro h
  rcases of_mem_currentTime h with hc | hc
  · rw [hdigit] at hc
    cases hc
  · exact hpunct hc

/-- It starts with a digit of the year. -/
theorem currentTime_not_prefix (t : LocalTime) (l : Bytes) : ¬ currentTime t <+: space :: l := by
  intro h
  obtain ⟨d, ds, hd⟩ := List.exists_cons_of_ne_nil (toDecimal_ne_nil t.year)
  have hdigit : isdigit d = true := isdigit_of_mem_toDecimal (by rw [hd]; exact List.mem_cons_self)
  have heq : d = space := by
    simp only [currentTime, hd, List.cons_append] at h
    exact (List.cons_prefix_cons.mp h).1
  rw [heq] at hdigit
  cases hdigit

/-! ### The loop over the trailing newlines -/

/-- A newline at the end is taken off, and then those in front of it. -/
theorem stripNewlines_concat (msg : Bytes) (c : UInt8) :
    stripNewlines (msg ++ [c]) = if c = newline then stripNewlines msg else msg ++ [c] := by
  rw [stripNewlines, List.reverse_concat, List.dropWhile_cons]
  by_cases hc : c = newline
  · rw [if_pos (by simpa using hc), if_pos hc, stripNewlines]
  · rw [if_neg (by simpa using hc), if_neg hc, List.reverse_cons, List.reverse_reverse]

/-- **The loop is `stripNewlines`**, and calls `back` on an empty view exactly when there is
    nothing but newlines. -/
theorem stripLoop_eq (msg : Bytes) :
    stripLoop msg = if msg.all (· == newline) then none else some (stripNewlines msg) := by
  -- From the last byte on, as the loop goes.
  induction msg using List.reverseRecOn with
  | nil =>
    rw [stripLoop]
    rfl
  | append_singleton msg c ih =>
    rw [stripLoop, dif_neg (by simp), List.getLast_concat, List.dropLast_concat,
      stripNewlines_concat]
    by_cases hc : c = newline
    · rw [if_pos hc, if_pos hc, ih]
      simp [hc]
    · rw [if_neg hc, if_neg hc, if_neg]
      simp [hc]

/-- What is left does not end in a newline. -/
theorem getLast_stripNewlines (msg : Bytes) : (stripNewlines msg).getLast? ≠ some newline := by
  intro h
  rw [stripNewlines, List.getLast?_reverse] at h
  have := head_dropWhile (fun c => c == newline) msg.reverse newline h
  simp at this

/-! ### The loop over the lines -/

/-- One line, with its newline if it has one, and the lines behind it. -/
theorem logLines_step {msg : Bytes} {start : ℕ} (hstart : start < msg.length) :
    logLines msg start = (if 0 < start then continuation else [])
      ++ (msg.drop start).take ((lineOf newline (msg.drop start)).length + 1)
      ++ logLines msg (start + ((lineOf newline (msg.drop start)).length + 1)) := by
  have hstop : ((msg.drop start).findIdx? (· == newline)).getD (msg.length - start)
      = (lineOf newline (msg.drop start)).length := by
    by_cases hnl : newline ∈ msg.drop start
    · rw [findIdx?_of_mem hnl, Option.getD_some]
    · rw [findIdx?_of_not_mem hnl, lineOf_of_not_mem hnl, List.length_drop, Option.getD_none]
  rw [logLines, if_pos hstart]
  simp only [hstop, Nat.add_sub_cancel_left, Nat.add_assoc]

/-- Behind the message there are no lines. -/
theorem logLines_end {msg : Bytes} {start : ℕ} (h : msg.length ≤ start) :
    logLines msg start = [] := by
  rw [logLines, if_neg (by omega)]

/-- From a position on: the lines behind it, each with the prefix unless it is the first. -/
theorem logLines_from {msg : Bytes} (hlast : msg.getLast? ≠ some newline) {start : ℕ}
    (hstart : start < msg.length) :
    logLines msg start = (if 0 < start then continuation else [])
      ++ (newline :: continuation).intercalate ((msg.drop start).splitOn newline) := by
  -- Induction on what is left: the loop goes on behind the next newline.
  induction hn : msg.length - start using Nat.strong_induction_on generalizing start with
  | _ n ih =>
    rw [logLines_step hstart, List.append_assoc]
    congr 1
    by_cases hnl : newline ∈ msg.drop start
    · have hlt := length_lineOf_lt hnl
      have hsplit := splitOn_step hnl
      have htake := List.take_append_drop start msg
      have hdrop : msg.drop (start + ((lineOf newline (msg.drop start)).length + 1))
          = afterLine newline (msg.drop start) := by
        rw [← List.drop_drop, drop_length_lineOf]
      have hline := (line_cases newline (msg.drop start)).resolve_left fun h => h.1 hnl
      generalize lineOf newline (msg.drop start) = line at *
      generalize afterLine newline (msg.drop start) = rest at *
      -- The newline is not the last byte, so a line follows.
      have hrest : rest ≠ [] := by
        rintro rfl
        apply hlast
        rw [← htake, hline, List.getLast?_append, List.getLast?_append]
        rfl
      have hnext : start + (line.length + 1) < msg.length := by
        have hpos := List.length_pos_of_ne_nil hrest
        rw [← hdrop, List.length_drop] at hpos
        omega
      have hfirst : (msg.drop start).take (line.length + 1) = line ++ [newline] := by
        rw [hline, List.take_length_add_append]
        rfl
      rw [ih (msg.length - (start + (line.length + 1))) (by omega) hnext rfl, if_pos (by omega),
        hdrop, hfirst, hsplit, List.intercalate_cons_of_ne_nil (List.splitOn_ne_nil newline rest)]
      simp only [List.append_assoc, List.cons_append, List.nil_append]
    · rw [logLines_end, List.splitOn_eq_singleton hnl, List.intercalate_singleton,
        lineOf_of_not_mem hnl, List.append_nil, List.take_of_length_le (by omega)]
      rw [lineOf_of_not_mem hnl, List.length_drop]
      omega

/-- **The lines of a message**, joined by a newline and the prefix. -/
theorem logLines_eq {msg : Bytes} (hlast : msg.getLast? ≠ some newline) :
    logLines msg 0 = (newline :: continuation).intercalate (msg.splitOn newline) := by
  by_cases hmsg : msg = []
  · rw [hmsg, logLines]
    rfl
  · rw [logLines_from hlast (List.length_pos_of_ne_nil hmsg), if_neg (lt_irrefl 0), List.nil_append,
      List.drop_zero]

/-! ### One entry -/

section

variable {stamp text l : Bytes} {ls : List Bytes}

/-- The lines of a block without the newline at its end, behind the stamp on the first. -/
theorem block_eq (hlast : text.getLast? ≠ some newline) (hls : text.splitOn newline = l :: ls) :
    stamp ++ logLines text 0
      = [newline].intercalate ((stamp ++ l) :: ls.map (continuation ++ ·)) := by
  rw [logLines_eq hlast, hls, intercalate_cons_eq, append_intercalate_cons]

/-- None of them is empty or has a newline in it. -/
theorem of_mem_block (hstamp : newline ∉ stamp) (hne : stamp ≠ [])
    (hls : text.splitOn newline = l :: ls) {w : Bytes}
    (hw : w ∈ (stamp ++ l) :: ls.map (continuation ++ ·)) : w ≠ [] ∧ newline ∉ w := by
  have hno : ∀ v ∈ l :: ls, newline ∉ v := by
    intro v hv
    rw [← hls] at hv
    exact not_mem_of_mem_splitOn hv
  rcases List.mem_cons.mp hw with rfl | hmem
  · refine ⟨by simp [hne], ?_⟩
    rw [List.mem_append, not_or]
    exact ⟨hstamp, hno l List.mem_cons_self⟩
  · obtain ⟨v, hv, rfl⟩ := List.mem_map.mp hmem
    have hcontinuation : newline ∉ continuation := by decide
    refine ⟨List.cons_ne_nil _ _, ?_⟩
    rw [List.mem_append, not_or]
    exact ⟨hcontinuation, hno v (List.mem_cons_of_mem _ hv)⟩

end

/-- What stands behind the bar and a blank is the first line. -/
theorem tail_afterLine_bar {time : Bytes} (h : bar ∉ time) (l : Bytes) :
    (afterLine bar (time ++ bytes " | " ++ l)).tail = l := by
  have hsplit : time ++ bytes " | " ++ l = (time ++ [space]) ++ bar :: (space :: l) := by
    simp only [List.append_assoc]
    rfl
  have hbar : bar ∉ time ++ [space] := by
    rw [List.mem_append, not_or]
    exact ⟨h, by decide⟩
  rw [hsplit, afterLine_append_cons hbar, List.tail_cons]

/-- **The block of a message** can be read back. -/
theorem isEntry_block (t : LocalTime) (msg : Bytes) :
    IsEntry (currentTime t) (stripNewlines msg)
      (currentTime t ++ bytes " | " ++ logLines (stripNewlines msg) 0 ++ [newline]) := by
  have hlast := getLast_stripNewlines msg
  generalize stripNewlines msg = text at hlast ⊢
  obtain ⟨l, ls, hls⟩ := List.exists_cons_of_ne_nil (List.splitOn_ne_nil newline text)
  have htime : newline ∉ currentTime t := not_mem_currentTime t rfl (by decide)
  have hbar : bar ∉ currentTime t := not_mem_currentTime t rfl (by decide)
  have hstamp : newline ∉ currentTime t ++ bytes " | " := by
    rw [List.mem_append, not_or]
    exact ⟨htime, by decide⟩
  have hne : currentTime t ++ bytes " | " ≠ [] := List.append_ne_nil_of_right_ne_nil _ (by decide)
  have hmem := fun w => of_mem_block hstamp hne hls (w := w)
  -- The first line has the stamp, each further one the indentation of the continuation.
  rw [block_eq hlast hls]
  have hlines := linesOf_intercalate (List.cons_ne_nil _ _) fun w hw => (hmem w hw).2
  have hfurther : ∀ w ∈ (linesOf newline ([newline].intercalate ((currentTime t ++ bytes " | " ++ l)
      :: ls.map (continuation ++ ·)) ++ [newline])).tail, ∃ v, w = continuation ++ v := by
    intro w hw
    rw [hlines] at hw
    obtain ⟨v, -, rfl⟩ := List.mem_map.mp hw
    exact ⟨v, rfl⟩
  constructor
  · exact ⟨l, by rw [hlines]; rfl⟩
  · intro w hw
    obtain ⟨v, rfl⟩ := hfurther w hw
    exact List.prefix_append _ _
  · intro w hw
    obtain ⟨v, rfl⟩ := hfurther w hw
    exact fun t => currentTime_not_prefix t _
  · exact ⟨_, rfl, getLast?_intercalate_ne (fun w hw => (hmem w hw).1) fun w hw => (hmem w hw).2⟩
  · -- Read backwards: the indentation comes off and the lines are joined again.
    have hrest : (ls.map (continuation ++ ·)).map (List.drop continuation.length) = ls := by
      rw [List.map_map]
      exact (List.map_congr_left fun w _ => List.drop_left).trans (List.map_id ls)
    rw [unformat, hlines]
    show [newline].intercalate (_ :: _) = text
    rw [tail_afterLine_bar hbar, hrest, ← hls, List.intercalate_splitOn]

/-- A message has a bracket at its start. -/
theorem message_eq_cons (level : LogLevel) (file : Bytes) (line : ℕ) (function text : Bytes) :
    ∃ rest, Logger.message level file line function text = 91 :: rest := by
  exact ⟨_, List.filter_cons_of_pos (by decide)⟩

/-- **Log entries are neither forged nor lost**: whatever the text, an enabled file worker writes
    one entry with the header and the text in it, less the carriage returns and the trailing
    newlines, and has not called `back` on an empty view. -/
theorem logTo_file (g : Logging) (name : Bytes) (worker : Worker) (t : LocalTime) (level : LogLevel)
    (file : Bytes) (line : ℕ) (function text : Bytes) (hname : name ≠ [])
    (hworker : g.workers.lookup name = some worker)
    (hlevel : level.toNat ≤ worker.level.toNat) (hclock : g.clock.head? = some (currentTime t)) :
    let msg := Logger.message level file line function text
    stripLoop msg = some (stripNewlines msg) ∧
      ∃ block, (g.logTo name level msg).outputs name = g.outputs name ++ block ∧
        IsEntry (currentTime t) (stripNewlines msg) block := by
  intro msg
  constructor
  · obtain ⟨rest, hrest⟩ := message_eq_cons level file line function text
    have hbracket : ((91 : UInt8) == newline) = false := by decide
    simp only [stripLoop_eq, msg, hrest, List.all_cons, hbracket, Bool.false_and]
    rfl
  · -- A file has no colours, so what is written is the stamp and the lines.
    have hhead : g.clock.headD [] = currentTime t := by
      rw [List.headD_eq_head?_getD, hclock, Option.getD_some]
    have hcolor : logColor name level = [] := if_pos hname
    have hreset : resetColor name = [] := if_pos hname
    refine ⟨_, ?_, isEntry_block t msg⟩
    rw [logTo_eq hworker hlevel, outputs_write, outputs_logTime, hhead, hcolor, hreset]
    simp only [List.append_assoc, List.nil_append]

/-- At noon, to a file with a blank line in the text. -/
theorem logTo_file_blank :
    let t : LocalTime := ⟨2024, 12, 9, 12, 0, 0, 42000⟩
    let g : Logging :=
      { workers := [(bytes "f", ⟨.INFO, none⟩)], outputs := fun _ => [], clock := [currentTime t] }
    ∃ block, (g.logTo (bytes "f") .WARN
        (Logger.message .WARN (bytes "m.cpp") 7 (bytes "main") (bytes "a\n\nb\r\n"))).outputs
          (bytes "f") = block ∧ IsEntry (currentTime t)
        (bytes "[    WARN] m.cpp:7 in main(): a\n\nb") block := by
  have h := logTo_file
    { workers := [(bytes "f", ⟨.INFO, none⟩)], outputs := fun _ => [],
      clock := [currentTime ⟨2024, 12, 9, 12, 0, 0, 42000⟩] }
    (bytes "f") ⟨.INFO, none⟩ ⟨2024, 12, 9, 12, 0, 0, 42000⟩ .WARN (bytes "m.cpp") 7 (bytes "main")
    (bytes "a\n\nb\r\n") (by decide) (by decide) (by decide) rfl
  obtain ⟨-, block, hblock, hentry⟩ := h
  -- The trailing CR LF is stripped, the blank line within is kept.
  have htext : stripNewlines (Logger.message .WARN (bytes "m.cpp") 7 (bytes "main")
      (bytes "a\n\nb\r\n")) = bytes "[    WARN] m.cpp:7 in main(): a\n\nb" := by decide
  rw [htext] at hentry
  exact ⟨block, hblock, hentry⟩

end Evaluation
