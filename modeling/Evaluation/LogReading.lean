import Evaluation.LogFormat
import Evaluation.LogHistory

namespace Evaluation

open Lib Logging

/-!
# Reading a log

A log is one text, and what it says comes from outside: the server logs the bytes that its clients
send.  This module reads a log back.  Its lines fall into blocks, at the lines that do not start
with the prefix of a further line; and a block is a message if a level in brackets stands behind its
time, after a colour on the console.

* `readLog` — the levels and the texts of the messages in a log;
* `LogEntry.blocks` — the blocks of an entry, and `LogEntry.text_eq`: they are its text;
* `readEntry_blocks` — the message of an entry is read back from them;
* `log_readBack` — so whatever is logged, after any calls of the logger, a log has exactly the
  messages that were let through to it: no text can add one, hide one or change its level.
-/

/-- The start of the header, with the level. -/
def levelTag (level : LogLevel) : Bytes :=
  bytes "[" ++ List.replicate (levelFmtWidth - (toStr level).length) space ++ toStr level
    ++ bytes "] "

/-- The level that a text starts with. -/
def levelOf (text : Bytes) : Option LogLevel :=
  [LogLevel.CRITICAL, .ERROR, .WARN, .INFO, .DEBUG, .TRACE].find? fun level =>
    levelTag level == text.take 11

/-- The text between the colours of the console. -/
def uncolour (name text : Bytes) : Bytes :=
  if name ≠ [] then text
  else
    let text := if text.head? = some 27 then afterLine 109 text else text
    text.take (text.length - (resetColor name).length)

/-- A line with the prefix of a further line. -/
def isFurther (line : Bytes) : Bool := continuation.isPrefixOf line

/-- The lines of a block without the time and the prefixes. -/
def unstamp : List Bytes → Bytes
  | [] => []
  | first :: further =>
    [newline].intercalate
      ((afterLine bar first).tail :: further.map (List.drop continuation.length))

/-- The message of a block. -/
def readEntry (name : Bytes) (block : List Bytes) : Option (LogLevel × Bytes) :=
  let text := uncolour name (unstamp block)
  (levelOf text).map fun level => (level, text)

/-- **The messages of a log.** -/
def readLog (name text : Bytes) : List (LogLevel × Bytes) :=
  ((linesOf newline text).splitBy fun _ line => isFurther line).filterMap (readEntry name)

/-- What stands in front of a first line. -/
def stamp (time : Bytes) : Bytes := time ++ bytes " | "

/-- The text of a message in a log. -/
def inLog (name : Bytes) (level : LogLevel) (msg : Bytes) : Bytes :=
  logColor name level ++ stripNewlines msg ++ resetColor name

/-- The lines of a text behind a stamp. -/
def stampLines (time text : Bytes) : List Bytes :=
  match text.splitOn newline with
  | [] => []
  | l :: ls => (stamp time ++ l) :: ls.map (continuation ++ ·)

/-- The blocks of an entry. -/
def LogEntry.blocks (name time time' : Bytes) : LogEntry → List (List Bytes)
  | .opened level =>
    [[List.replicate timeFmtWidth 45],
      [stamp time ++ List.replicate (fullHeaderWidth - timeFmtWidth) 45],
      [stamp time' ++ (bytes "Opening \"" ++ (if name = [] then bytes "Console" else name)
        ++ bytes "\" for logging at level " ++ toStr level)]]
  | .changed old new =>
    [[stamp time ++ (bytes "Changing log level from " ++ toStr old ++ bytes " to " ++ toStr new)]]
  | .message level msg => [stampLines time (inLog name level msg)]

/-- What stands in a log for a time: nothing when there is no time to come. -/
def IsTime (time : Bytes) : Prop := time = [] ∨ ∃ t, time = currentTime t

/-! ### The header -/

/-- The tag of a level is read as that level. -/
theorem levelOf_levelTag (level : LogLevel) (rest : Bytes) :
    levelOf (levelTag level ++ rest) = some level := by
  have hlen : (levelTag level).length = 11 := by cases level <;> decide
  rw [levelOf, List.take_left' hlen]
  cases level <;> decide

/-- Without a bracket there is no level. -/
theorem levelOf_eq_none {text : Bytes} (h : text.head? ≠ some 91) : levelOf text = none := by
  rw [levelOf, List.find?_eq_none]
  intro level _ hlevel
  have htag : (levelTag level).head? = some 91 := by cases level <;> decide
  rw [beq_iff_eq.mp hlevel, List.head?_take] at htag
  exact h htag

/-- What ends with no newline keeps its end. -/
theorem stripNewlines_append {a : Bytes} (ha : a.getLast? ≠ some newline) (hne : a ≠ [])
    (b : Bytes) : stripNewlines (a ++ b) = a ++ stripNewlines b := by
  induction b using List.reverseRecOn with
  | nil =>
    obtain ⟨a, c, rfl⟩ := List.eq_nil_or_concat a |>.resolve_left hne
    have hc : c ≠ newline := by simpa using ha
    have hnil : stripNewlines [] = [] := rfl
    rw [hnil, List.append_nil, List.concat_eq_append, stripNewlines_concat,
      if_neg hc]
  | append_singleton b c ih =>
    rw [← List.append_assoc, stripNewlines_concat, stripNewlines_concat, ih]
    split
    · rfl
    · exact List.append_assoc ..

/-- A message keeps the level in its header. -/
theorem stripNewlines_message (level : LogLevel) (file : Bytes) (line : ℕ) (function text : Bytes) :
    ∃ rest, stripNewlines (Logger.message level file line function text)
      = levelTag level ++ rest := by
  have hmessage : ∃ rest,
      Logger.message level file line function text = levelTag level ++ rest := by
    have hfilter : (levelTag level).filter (fun c => c != carriageReturn) = levelTag level := by
      cases level <;> decide
    refine ⟨(file ++ bytes ":" ++ toDecimal line ++ bytes " in " ++ function ++ bytes "(): "
      ++ text).filter fun c => c != carriageReturn, ?_⟩
    rw [Logger.message, Logger.header, ← hfilter, ← List.filter_append]
    simp only [levelTag, List.append_assoc]
  obtain ⟨rest, hrest⟩ := hmessage
  have hlast : (levelTag level).getLast? ≠ some newline := by cases level <;> decide
  have hne : levelTag level ≠ [] := by cases level <;> decide
  rw [hrest, stripNewlines_append hlast hne]
  exact ⟨_, rfl⟩

/-! ### The lines of an entry -/

section

variable {name time time' text : Bytes}

/-- The colours have no newline in them. -/
theorem newline_not_mem_logColor (level : LogLevel) : newline ∉ logColor name level := by
  unfold logColor
  split
  · simp
  · cases level <;> decide

/-- The end of the colours has no newline in it. -/
theorem newline_not_mem_resetColor : newline ∉ resetColor name := by
  unfold resetColor
  split
  · simp
  · decide

/-- What is behind a stamp does not end with a newline. -/
theorem getLast_inLog (level : LogLevel) (msg : Bytes) :
    (inLog name level msg).getLast? ≠ some newline := by
  by_cases hname : name = []
  · have hreset : resetColor name = bytes "\x1b[0m" := if_neg (not_not.mpr hname)
    rw [inLog, hreset, List.getLast?_append_of_ne_nil _ (by decide)]
    decide
  · have hcolor : logColor name level = [] := if_pos hname
    have hreset : resetColor name = [] := if_pos hname
    rw [inLog, hcolor, hreset, List.nil_append, List.append_nil]
    exact getLast_stripNewlines msg

/-- The colours may as well stand in the text whose lines are written. -/
theorem logLines_inLog (level : LogLevel) (msg : Bytes) :
    logColor name level ++ logLines (stripNewlines msg) 0 ++ resetColor name
      = logLines (inLog name level msg) 0 := by
  -- A text without newlines is written as it is.
  have hplain : ∀ {t : Bytes}, newline ∉ t →
      t.flatMap (fun c => if c = newline then newline :: continuation else [c]) = t := by
    intro t ht
    induction t with
    | nil => rfl
    | cons c t ih =>
      rw [List.mem_cons, not_or] at ht
      rw [List.flatMap_cons, if_neg (Ne.symm ht.1), ih ht.2, List.singleton_append]
  rw [logLines_eq (getLast_stripNewlines msg), logLines_eq (getLast_inLog level msg),
    intercalate_splitOn_eq_flatMap, intercalate_splitOn_eq_flatMap, inLog, List.flatMap_append,
    List.flatMap_append, hplain (newline_not_mem_logColor level), hplain newline_not_mem_resetColor]

/-- The lines behind a stamp, each ended. -/
theorem stampLines_eq (htext : text.getLast? ≠ some newline) :
    stamp time ++ logLines text 0 ++ [newline]
      = (stampLines time text).flatMap fun l => l ++ [newline] := by
  obtain ⟨l, ls, hls⟩ := List.exists_cons_of_ne_nil (List.splitOn_ne_nil newline text)
  rw [stampLines, hls, block_eq htext hls, intercalate_append_end _ (List.cons_ne_nil _ _)]

/-- **The blocks of an entry** are its text. -/
theorem LogEntry.text_eq (e : LogEntry) :
    e.text name time time'
      = (e.blocks name time time').flatten.flatMap fun l => l ++ [newline] := by
  cases e with
  | opened level => simp [LogEntry.text, blocks, stamp]
  | changed old new => simp [LogEntry.text, blocks, stamp]
  | message level msg =>
    have hlines := @stampLines_eq time _ (@getLast_inLog name level msg)
    rw [← logLines_inLog] at hlines
    simp only [LogEntry.text, blocks, List.flatten_singleton, ← hlines, stamp, List.append_assoc]

/-- A further line starts with two blanks. -/
theorem isFurther_eq_false {line : Bytes} (h : ∀ l, line ≠ space :: space :: l) :
    isFurther line = false := by
  rw [Bool.eq_false_iff]
  intro hfurther
  obtain ⟨l, rfl⟩ := List.isPrefixOf_iff_prefix.mp hfurther
  exact h _ rfl

/-- A line with a stamp is none. -/
theorem isFurther_stamp (htime : IsTime time) (l : Bytes) :
    isFurther (stamp time ++ l) = false := by
  apply isFurther_eq_false
  intro rest hrest
  rcases htime with rfl | ⟨t, rfl⟩
  · -- No time: a blank and the bar.
    have hbar : bar = space := by
      rw [stamp, List.nil_append] at hrest
      exact (List.cons.inj (List.cons.inj hrest).2).1
    exact absurd hbar (by decide)
  · have hprefix : currentTime t <+: space :: (space :: rest) := by
      rw [← hrest, stamp, List.append_assoc]
      exact List.prefix_append ..
    exact currentTime_not_prefix t _ hprefix

/-- A stamp has no newline in it, and its time no bar. -/
theorem not_mem_stamp (htime : IsTime time) : newline ∉ stamp time ∧ bar ∉ time := by
  rcases htime with rfl | ⟨t, rfl⟩
  · decide
  · have hnl : newline ∉ currentTime t := not_mem_currentTime t rfl (by decide)
    have hbar : bar ∉ currentTime t := not_mem_currentTime t rfl (by decide)
    refine ⟨?_, hbar⟩
    rw [stamp, List.mem_append, not_or]
    exact ⟨hnl, by decide⟩

/-- A line with a stamp, by itself. -/
theorem isBlock_single (htime : IsTime time) (htext : newline ∉ text) :
    IsBlock isFurther [stamp time ++ text] ∧ newline ∉ stamp time ++ text := by
  refine ⟨⟨_, [], rfl, isFurther_stamp htime text, by simp⟩, ?_⟩
  rw [List.mem_append, not_or]
  exact ⟨(not_mem_stamp htime).1, htext⟩

/-- The lines of a text behind a stamp are one block. -/
theorem isBlock_stampLines (htime : IsTime time) :
    IsBlock isFurther (stampLines time text) ∧ ∀ l ∈ stampLines time text, newline ∉ l := by
  obtain ⟨l, ls, hls⟩ := List.exists_cons_of_ne_nil (List.splitOn_ne_nil newline text)
  obtain ⟨hnl, -⟩ := not_mem_stamp htime
  have hne : stamp time ≠ [] := List.append_ne_nil_of_right_ne_nil _ (by decide)
  rw [stampLines, hls]
  refine ⟨⟨_, _, rfl, isFurther_stamp htime l, ?_⟩, fun w hw => (of_mem_block hnl hne hls hw).2⟩
  intro w hw
  obtain ⟨v, -, rfl⟩ := List.mem_map.mp hw
  exact List.isPrefixOf_iff_prefix.mpr (List.prefix_append ..)

/-- The name of a level has no newline in it. -/
theorem newline_not_mem_toStr (level : LogLevel) : newline ∉ toStr level := by
  cases level <;> decide

/-- **The blocks of an entry** are found again by their first lines. -/
theorem LogEntry.isBlock_of_mem (hname : newline ∉ name) (htime : IsTime time)
    (htime' : IsTime time') (e : LogEntry) :
    ∀ b ∈ e.blocks name time time', IsBlock isFurther b ∧ ∀ l ∈ b, newline ∉ l := by
  cases e with
  | opened level =>
    -- Neither the place nor the level breaks the opening line in two.
    have hlocation : newline ∉ if name = [] then bytes "Console" else name := by
      split
      · decide
      · exact hname
    have hopening : newline ∉ bytes "Opening \"" ++ (if name = [] then bytes "Console" else name)
        ++ bytes "\" for logging at level " ++ toStr level := by
      simp only [List.mem_append, not_or]
      exact ⟨⟨⟨by decide, hlocation⟩, by decide⟩, newline_not_mem_toStr level⟩
    simp only [blocks, List.mem_cons, List.not_mem_nil, or_false, forall_eq_or_imp, forall_eq]
    have hdashes : newline ∉ List.replicate (fullHeaderWidth - timeFmtWidth) (45 : UInt8) := by
      decide
    exact ⟨⟨⟨_, [], rfl, by decide, by simp⟩, by decide⟩, isBlock_single htime hdashes,
      isBlock_single htime' hopening⟩
  | changed old new =>
    have hchanging : newline ∉ bytes "Changing log level from " ++ toStr old ++ bytes " to "
        ++ toStr new := by
      simp only [List.mem_append, not_or]
      exact ⟨⟨⟨by decide, newline_not_mem_toStr old⟩, by decide⟩, newline_not_mem_toStr new⟩
    simp only [blocks, List.mem_singleton, forall_eq]
    exact isBlock_single htime hchanging
  | message level msg =>
    simp only [blocks, List.mem_singleton, forall_eq]
    exact isBlock_stampLines htime

/-! ### Reading the entry back -/

/-- The lines of a stamped text give it back. -/
theorem unstamp_stampLines (htime : IsTime time) : unstamp (stampLines time text) = text := by
  obtain ⟨l, ls, hls⟩ := List.exists_cons_of_ne_nil (List.splitOn_ne_nil newline text)
  have hrest : (ls.map (continuation ++ ·)).map (List.drop continuation.length) = ls := by
    rw [List.map_map]
    exact (List.map_congr_left fun w _ => List.drop_left).trans (List.map_id ls)
  rw [stampLines, hls]
  show [newline].intercalate (_ :: _) = text
  rw [stamp, tail_afterLine_bar (not_mem_stamp htime).2, hrest, ← hls, List.intercalate_splitOn]

/-- A single line gives its text back. -/
theorem unstamp_single (htime : IsTime time) (text : Bytes) :
    unstamp [stamp time ++ text] = text := by
  show [newline].intercalate [_] = text
  rw [List.intercalate_singleton, stamp, tail_afterLine_bar (not_mem_stamp htime).2]

/-- A text that starts with no bracket and no colour is no message. -/
theorem readEntry_eq_none {block : List Bytes} (hbracket : (unstamp block).head? ≠ some 91)
    (hcolour : (unstamp block).head? ≠ some 27) : readEntry name block = none := by
  have htake : ∀ n, ((unstamp block).take n).head? ≠ some 91 := by
    intro n h
    rw [List.head?_take] at h
    split at h
    · cases h
    · exact hbracket h
  have hlevel : levelOf (uncolour name (unstamp block)) = none := by
    apply levelOf_eq_none
    by_cases hname : name = []
    · rw [uncolour, if_neg (not_not.mpr hname), if_neg hcolour]
      exact htake _
    · rw [uncolour, if_pos hname]
      exact hbracket
  rw [readEntry, hlevel]
  rfl

/-- A line that opens with neither a bracket nor a colour is no message. -/
theorem readEntry_stamp (htime : IsTime time) {c : UInt8} (hhead : text.head? = some c)
    (hc : c ≠ 91 ∧ c ≠ 27) : readEntry name [stamp time ++ text] = none := by
  have hne : ∀ {d : UInt8}, c ≠ d → (unstamp [stamp time ++ text]).head? ≠ some d := by
    intro d hd
    rw [unstamp_single htime, hhead]
    exact fun h => hd (Option.some.inj h)
  exact readEntry_eq_none (hne hc.1) (hne hc.2)

/-- A colour is an escape sequence up to the first `m`. -/
theorem logColor_cases (name : Bytes) (level : LogLevel) :
    logColor name level = [] ∨ ∃ c, logColor name level = (27 :: c) ++ [109] ∧ 109 ∉ 27 :: c := by
  by_cases hname : name = []
  · unfold logColor
    rw [if_neg (not_not.mpr hname)]
    cases level with
    | CRITICAL => exact .inr ⟨bytes "[31;1", by decide, by decide⟩
    | ERROR => exact .inr ⟨bytes "[31", by decide, by decide⟩
    | WARN => exact .inr ⟨bytes "[33", by decide, by decide⟩
    | INFO => exact .inl rfl
    | DEBUG => exact .inr ⟨bytes "[2", by decide, by decide⟩
    | TRACE => exact .inr ⟨bytes "[2;3", by decide, by decide⟩
  · exact .inl (if_pos hname)

/-- The colours are taken off. -/
theorem uncolour_inLog {level : LogLevel} {msg rest : Bytes}
    (h : stripNewlines msg = levelTag level ++ rest) :
    uncolour name (inLog name level msg) = stripNewlines msg := by
  by_cases hname : name = []
  · have hhead : (if (inLog name level msg).head? = some 27
        then afterLine 109 (inLog name level msg) else inLog name level msg)
          = stripNewlines msg ++ resetColor name := by
      -- Without a colour the message begins with the bracket of its level; a colour begins with ESC
      -- and ends at its m.
      rcases logColor_cases name level with hcolour | ⟨c, hcolour, hm⟩
      · have hbracket : (levelTag level ++ (rest ++ resetColor name)).head? = some 91 := by
          cases level <;> rfl
        rw [inLog, hcolour, List.nil_append, h, List.append_assoc, hbracket]
        exact if_neg (by decide)
      · have htext : inLog name level msg
            = (27 :: c) ++ 109 :: (stripNewlines msg ++ resetColor name) := by
          simp only [inLog, hcolour, List.append_assoc, List.cons_append, List.nil_append]
        rw [htext, afterLine_append_cons hm]
        exact if_pos rfl
    rw [uncolour, if_neg (not_not.mpr hname)]
    dsimp only
    rw [hhead, List.length_append, Nat.add_sub_cancel_right, List.take_left]
  · have hcolor : logColor name level = [] := if_pos hname
    have hreset : resetColor name = [] := if_pos hname
    rw [uncolour, if_pos hname, inLog, hcolor, hreset, List.nil_append, List.append_nil]

/-- **A message is read back** from the blocks of its entry, and from those of other entries there
    is none. -/
theorem readEntry_blocks (htime : IsTime time) (htime' : IsTime time') {e : LogEntry}
    (he : ∀ level msg, e = .message level msg →
      ∃ rest, stripNewlines msg = levelTag level ++ rest) :
    (e.blocks name time time').filterMap (readEntry name)
      = e.logged.toList.map fun m => (m.1, stripNewlines m.2) := by
  cases e with
  | opened level =>
    -- None of the three opening lines reads as a message.
    have hdashes : readEntry name [List.replicate timeFmtWidth 45] = none :=
      readEntry_eq_none (by decide) (by decide)
    have hline : readEntry name
        [stamp time ++ List.replicate (fullHeaderWidth - timeFmtWidth) 45] = none :=
      readEntry_stamp htime rfl (by decide)
    have hopening : readEntry name [stamp time' ++ (bytes "Opening \""
        ++ (if name = [] then bytes "Console" else name) ++ bytes "\" for logging at level "
          ++ toStr level)] = none := readEntry_stamp htime' rfl (by decide)
    simp only [LogEntry.blocks, LogEntry.logged, List.filterMap_cons, hdashes, hline, hopening,
      List.filterMap_nil, Option.toList_none, List.map_nil]
  | changed old new =>
    have hchanging : readEntry name [stamp time ++ (bytes "Changing log level from " ++ toStr old
        ++ bytes " to " ++ toStr new)] = none := readEntry_stamp htime rfl (by decide)
    simp only [LogEntry.blocks, LogEntry.logged, List.filterMap_cons, hchanging,
      List.filterMap_nil, Option.toList_none, List.map_nil]
  | message level msg =>
    obtain ⟨rest, hrest⟩ := he level msg rfl
    -- The stamp comes off, then the colour, and the tag says the level.
    have hread : readEntry name (stampLines time (inLog name level msg))
        = some (level, stripNewlines msg) := by
      rw [readEntry, unstamp_stampLines htime, uncolour_inLog hrest, hrest, levelOf_levelTag]
      rfl
    simp only [LogEntry.blocks, LogEntry.logged, List.filterMap_cons, hread, List.filterMap_nil,
      Option.toList_some, List.map_cons, List.map_nil]

/-! ### Whole logs -/

/-- A text that consists of entries is that of their blocks. -/
theorem Written.blocks {clock : List Bytes} {es : List LogEntry} (hname : newline ∉ name)
    (hclock : ∀ time ∈ clock, ∃ t, time = currentTime t)
    (hes : ∀ level msg, .message level msg ∈ es →
      ∃ rest, stripNewlines msg = levelTag level ++ rest) (h : Written clock name es text) :
    ∃ bs : List (List Bytes), text = bs.flatten.flatMap (fun l => l ++ [newline]) ∧
      (∀ b ∈ bs, IsBlock isFurther b ∧ ∀ l ∈ b, newline ∉ l) ∧
      bs.filterMap (readEntry name)
        = (es.filterMap LogEntry.logged).map fun m => (m.1, stripNewlines m.2) := by
  have hstamp : ∀ {time}, time ∈ [] :: clock → IsTime time := by
    intro time htime
    exact (List.mem_cons.mp htime).imp_right (hclock time)
  induction h with
  | nil => exact ⟨[], rfl, by simp, rfl⟩
  | @concat es text time time' e _ htime htime' ih =>
    obtain ⟨bs, htext, hblocks, hread⟩ := ih fun level msg hmem => hes level msg (by simp [hmem])
    -- The last entry adds its blocks behind those of the others.
    refine ⟨bs ++ e.blocks name time time', ?_, ?_, ?_⟩
    · rw [List.flatten_append, List.flatMap_append, ← htext, ← e.text_eq]
    · intro b hb
      rcases List.mem_append.mp hb with hb | hb
      · exact hblocks b hb
      · exact e.isBlock_of_mem hname (hstamp htime) (hstamp htime') b hb
    · rw [List.filterMap_append, hread, readEntry_blocks (hstamp htime) (hstamp htime')
        (by rintro level msg rfl; exact hes level msg (by simp)), List.filterMap_append,
        List.map_append]
      cases e <;> rfl

/-- **Such a text is read back.** -/
theorem readLog_written {clock : List Bytes} {es : List LogEntry} (hname : newline ∉ name)
    (hclock : ∀ time ∈ clock, ∃ t, time = currentTime t)
    (hes : ∀ level msg, .message level msg ∈ es →
      ∃ rest, stripNewlines msg = levelTag level ++ rest) (h : Written clock name es text) :
    readLog name text
      = (es.filterMap LogEntry.logged).map fun m => (m.1, stripNewlines m.2) := by
  obtain ⟨bs, htext, hblocks, hread⟩ := h.blocks hname hclock hes
  have hnl : ∀ l ∈ bs.flatten, newline ∉ l := by
    intro l hl
    obtain ⟨b, hb, hl⟩ := List.mem_flatten.mp hl
    exact (hblocks b hb).2 l hl
  rw [readLog, htext, linesOf_flatMap hnl, splitBy_blocks fun b hb => (hblocks b hb).1, hread]

end

/-- A message comes from a call. -/
theorem mem_entries_step {name : Bytes} {s : Sink} {call : LogCall} {level : LogLevel} {msg : Bytes}
    (h : .message level msg ∈ (s.step name call).entries) :
    .message level msg ∈ s.entries ∨ call = .log level msg := by
  -- Only a LOG adds a message; the other calls add entries of their own or none.
  cases call with
  | addWorker name' level' =>
    left
    rw [Sink.step] at h
    split at h
    · simpa using h
    · exact h
  | setLevel name' level' =>
    left
    rw [Sink.step] at h
    split at h
    · exact h
    · split at h
      · simpa using h
      · exact h
  | removeWorker name' =>
    left
    rw [Sink.step] at h
    split at h <;> exact h
  | log level' msg' =>
    rw [Sink.step] at h
    split at h
    · exact .inl h
    · split at h
      · rcases List.mem_append.mp h with h | h
        · exact .inl h
        · cases List.mem_singleton.mp h
          exact .inr rfl
      · exact .inl h

/-- The messages that `LOG` makes have their level in the header. -/
theorem stripNewlines_sinkAfter {name : Bytes} (calls : List LoggerCall) {level : LogLevel}
    {msg : Bytes} (h : .message level msg ∈ (sinkAfter name calls).entries) :
    ∃ rest, stripNewlines msg = levelTag level ++ rest := by
  induction calls using List.reverseRecOn with
  | nil => cases h
  | append_singleton calls call ih =>
    rw [sinkAfter_concat] at h
    rcases mem_entries_step h with hmem | hcall
    · exact ih hmem
    · cases call with
      | LOG level' file line function text =>
        cases hcall
        exact stripNewlines_message level file line function text
      | _ => cases hcall

/-- **A log can be read back.**  After any calls of the logger, what a sink has been given is read
    back as the messages that its level let through, in their order and with their levels: whatever
    bytes have been logged, none of them make an entry, hide one or change its level. -/
theorem log_readBack {g₀ : Logging} (hempty : g₀.workers = [])
    (hclock : ∀ time ∈ g₀.clock, ∃ t, time = currentTime t) {name : Bytes}
    (hname : newline ∉ name) (calls : List LoggerCall) :
    ∃ text, (runCalls calls g₀).outputs name = g₀.outputs name ++ text ∧
      readLog name text = (deliveries name g₀ calls).map fun m => (m.1, stripNewlines m.2) := by
  obtain ⟨text, houtput, hwritten⟩ := ((keepsTo_runCalls hempty calls).sink name).written
  refine ⟨text, houtput, ?_⟩
  rw [readLog_written hname hclock (fun level msg => stripNewlines_sinkAfter calls) hwritten,
    logged_sinkAfter hempty]

/-- The text of a message that tries to look like two. -/
def forgedText : Bytes := bytes "a\n2024-12-09 12:00:00.042 | [CRITICAL] b"

/-- It is one. -/
theorem log_readBack_forged :
    let g₀ : Logging :=
      { workers := [], outputs := fun _ => []
        clock := List.replicate 3 (currentTime ⟨2024, 12, 9, 12, 0, 0, 42000⟩) }
    readLog (bytes "f") ((runCalls [.addFile (bytes "f") .INFO,
      .LOG .INFO (bytes "m.cpp") 7 (bytes "main") forgedText] g₀).outputs (bytes "f"))
        = [(.INFO, bytes "[    INFO] m.cpp:7 in main(): " ++ forgedText)] := by
  intro g₀
  obtain ⟨text, houtput, hread⟩ := @log_readBack g₀ rfl
    (fun time htime => ⟨_, List.eq_of_mem_replicate htime⟩) (bytes "f") (by decide)
    [.addFile (bytes "f") .INFO, .LOG .INFO (bytes "m.cpp") 7 (bytes "main") forgedText]
  rw [houtput]
  refine hread.trans ?_
  decide +kernel

end Evaluation
