import Evaluation.Reading

namespace Evaluation

open Lib SocketStream

/-!
# How long a stream may be

The cursor of a `SocketStream` is an `unsigned int`; the length that it is compared with is not.
`remaining` sets it to that length, and once the length needs more than 32 bits the two are never
equal again, so the loop goes on for ever.

* `ReadsToEnd` — `remaining` ends wherever calls lead, and returns what is left; `parseRequest`
  ends; and no call takes the cursor back;
* `readsToEnd_iff` — this is so if and only if fewer than 2³² - 1 bytes arrive.
-/

/-- The stream **can be read to its end**.  The states meant are those that calls lead to, as long
    as they return. -/
structure ReadsToEnd (rs : List RecvResult) : Prop where
  remaining : ∀ s, Relation.ReflTransGen (Answers SocketStream.call) (ofSocket rs) s →
    remaining.Ends s fun o => s.pos.toNat ≤ (delivered rs).length →
      ∃ s', o = .ok ((delivered rs).drop s.pos.toNat) s' ∧ s'.pos.toNat = s'.buffer.length
  parseRequest : parseRequest.Ends (ofSocket rs) fun _ => True
  cursor : ∀ s t, Relation.ReflTransGen (Answers SocketStream.call) (ofSocket rs) s →
    Answers SocketStream.call s t → s.pos ≤ t.pos

/-- `remaining` is one of the calls. -/
theorem answers_remaining {s t : SocketStream} {rest : Bytes}
    (h : remaining.Returns s (.ok rest t)) : Answers SocketStream.call s t :=
  ⟨.remaining, .str rest,
    (Prog.returns_bind_of_ok h _).mpr ((Prog.returns_pure _ _ _).mpr rfl)⟩

/-- `nextLine` is one of the calls. -/
theorem answers_nextLine {s t : SocketStream} {skipWhitespace : Bool} {line : Bytes}
    (h : (nextLine skipWhitespace).Returns s (.ok line t)) : Answers SocketStream.call s t :=
  ⟨.nextLine skipWhitespace, .str line,
    (Prog.returns_bind_of_ok h _).mpr ((Prog.returns_pure _ _ _).mpr rfl)⟩

/-! ### Short streams -/

/-- A cursor in a text never goes back. -/
theorem Cursor.pos_le_call {call : StreamCall} {c c' : Cursor} {v : StreamAnswer}
    (h : c.call call = .ok (v, c')) (hpos : c.pos ≤ c.text.length) : c.pos ≤ c'.pos := by
  -- The members that move the cursor add to it.
  cases call with
  | hasNext =>
    cases h
    exact le_rfl
  | nextWord =>
    simp only [Cursor.call, Cursor.nextWord, Cursor.guarded_of_le hpos] at h
    cases h
    exact c.pos_le_afterWord
  | nextLine skipWhitespace =>
    simp only [Cursor.call, Cursor.nextLine, Cursor.guarded_of_le hpos] at h
    cases h
    show c.pos ≤ c.pos + _ + _ + 1
    omega
  | remaining =>
    simp only [Cursor.call, Cursor.remaining, Cursor.guarded_of_le hpos] at h
    cases h
    exact hpos
  | passedBuffer =>
    cases h
    exact le_rfl

/-- Past the end a cursor only answers calls that leave it where it is. -/
theorem Cursor.pos_le_call_past {call : StreamCall} {c c' : Cursor} {v : StreamAnswer}
    (h : c.call call = .ok (v, c')) (hpos : c.text.length < c.pos) : c.pos ≤ c'.pos := by
  have hthrows : ∀ {α : Type} (x : α), c.guarded x = .error .outOfRange :=
    fun _ => if_neg (by omega)
  cases call with
  | hasNext | passedBuffer =>
    cases h
    exact le_rfl
  | nextWord | nextLine _ | remaining =>
    simp only [Cursor.call, Cursor.nextWord, Cursor.nextLine, Cursor.remaining, hthrows] at h
    cases h

/-- A stream whose cursor is at the end of the text has received all of it. -/
theorem buffer_length_of_tracks {s : SocketStream} {c : Cursor} (h : Tracks s c)
    (hend : c.pos = c.text.length) : s.buffer.length = c.text.length := by
  have hle := s.buffer_length_le
  rw [h.text] at hle
  rcases h.inBuffer with hpos | hnil
  · omega
  · rw [← h.text, text_eq_buffer hnil]

/-- `remaining` ends on a text shorter than 2³², with the cursor at its end. -/
theorem remaining_ends {s : SocketStream} {c : Cursor} (h : Tracks s c)
    (hlen : c.text.length < 2 ^ 32) :
    remaining.Ends s fun o => s.pos.toNat ≤ c.text.length →
      ∃ s', o = .ok (c.text.drop s.pos.toNat) s' ∧ s'.pos.toNat = s'.buffer.length := by
  by_cases hpos : c.pos ≤ c.text.length
  · obtain ⟨s', hret, htr⟩ := remaining_returns h (Cursor.guarded_of_le hpos _) hlen
    refine ⟨_, hret, fun _ => ⟨s', ?_, ?_⟩⟩
    · rw [h.pos]
      rfl
    · rw [htr.pos, buffer_length_of_tracks htr rfl]
  · -- Past the end: it throws.
    have hbuf := s.buffer_length_le
    rw [h.text] at hbuf
    obtain ⟨s', hret⟩ := remaining_throws (s := s) (by rw [h.pos]; omega)
    refine ⟨_, hret, ?_⟩
    rw [h.pos]
    exact fun hle => absurd hle hpos

/-- A stream that 32 bits can count is read to its end. -/
theorem readsToEnd_of_short {rs : List RecvResult} (hlen : (delivered rs).length < 2 ^ 32 - 1) :
    ReadsToEnd rs := by
  -- Up to this length the stream does what the unbounded cursor does, which ends and moves forward.
  have hsim := socketStream_simulates_cursor (delivered rs) hlen
  have hstart : Tracks (ofSocket rs) ⟨delivered rs, 0⟩ ∧ (⟨delivered rs, 0⟩ : Cursor).text
      = delivered rs := ⟨tracks_ofSocket rs, rfl⟩
  refine ⟨?_, ?_, ?_⟩
  · intro s hs
    obtain ⟨c, htr, htext⟩ := hsim.reaches hstart hs
    rw [← htext] at hlen ⊢
    exact remaining_ends htr (by omega)
  · obtain ⟨s', hret⟩ := parseRequest_returns rs hlen
    exact ⟨_, hret, trivial⟩
  · rintro s t hs ⟨call, v, hret⟩
    obtain ⟨c, htr, htext⟩ := hsim.reaches hstart hs
    obtain ⟨c', hcall, htr', -⟩ := hsim.answer ⟨htr, htext⟩ hret
    rw [UInt32.le_iff_toNat_le, htr.pos, htr'.pos]
    by_cases hpos : c.pos ≤ c.text.length
    · exact Cursor.pos_le_call hcall hpos
    · exact Cursor.pos_le_call_past hcall (by omega)

/-! ### Long streams -/

/-- On a stream of 2³² bytes or more `remaining` does not return. -/
theorem remaining_long {rs : List RecvResult} (hlen : 2 ^ 32 ≤ (delivered rs).length)
    (rest : Bytes) (s : SocketStream) : ¬ remaining.Returns (ofSocket rs) (.ok rest s) := by
  intro hret
  have hshort := (remaining_safe (over_ofSocket rs) _ hret rest s rfl).1
  omega

/-- A stream of 2³² - 1 bytes is read to its end, and the next `nextLine` takes the cursor back to
    its start. -/
theorem nextLine_wraps_to_start {rs : List RecvResult}
    (hlen : (delivered rs).length = 2 ^ 32 - 1) :
    ∃ s t, Answers SocketStream.call (ofSocket rs) s ∧ Answers SocketStream.call s t ∧
      s.pos.toNat = 2 ^ 32 - 1 ∧ t.pos.toNat = 0 := by
  obtain ⟨s, hret, htr⟩ := remaining_returns (tracks_ofSocket rs)
    (Cursor.guarded_of_le (Nat.zero_le _) _) (by show (delivered rs).length < 2 ^ 32; omega)
  -- Nothing lies ahead, so the line is empty and only the last `++` moves the cursor.
  have hahead : (delivered rs).drop (delivered rs).length = [] := List.drop_length
  have hline : (⟨delivered rs, (delivered rs).length⟩ : Cursor).nextLine false
      = .ok ([], ⟨delivered rs, (delivered rs).length + 1⟩) := by
    unfold Cursor.nextLine
    rw [Cursor.guarded_of_le le_rfl]
    simp only [Cursor.rest, hahead, if_neg Bool.false_ne_true, List.drop_nil, lineOf,
      List.takeWhile_nil, List.length_nil, Nat.add_zero, popCR_nil]
  obtain ⟨t, hret', htr'⟩ := nextLine_wraps htr hline
    (by show (delivered rs).length + 1 ≤ 2 ^ 32; omega)
  refine ⟨s, t, answers_remaining hret, answers_nextLine hret', ?_, ?_⟩
  · rw [htr.pos]
    exact hlen
  · rw [htr'.pos]
    show ((delivered rs).length + 1) % 2 ^ 32 = 0
    rw [hlen]
    rfl

/-- A stream that is read to its end can be counted in 32 bits, with a byte to spare for the `++` of
    `nextLine`. -/
theorem short_of_readsToEnd {rs : List RecvResult} (h : ReadsToEnd rs) :
    (delivered rs).length < 2 ^ 32 - 1 := by
  by_contra hlong
  -- The text that ends on the last index: `nextLine` goes one past it, which is index 0.
  by_cases hlen : (delivered rs).length = 2 ^ 32 - 1
  · obtain ⟨s, t, hs, ht, hspos, htpos⟩ := nextLine_wraps_to_start hlen
    have hle := h.cursor s t (.single hs) ht
    rw [UInt32.le_iff_toNat_le] at hle
    omega
  · -- A longer one: `remaining` jumps to the end and never gets there.
    obtain ⟨o, hret, ho⟩ := h.remaining _ .refl
    obtain ⟨s', rfl, -⟩ := ho (Nat.zero_le _)
    exact remaining_long (by omega) _ _ hret

/-- **A stream can be read to its end** if and only if fewer than 2³² - 1 bytes arrive. -/
theorem readsToEnd_iff (rs : List RecvResult) :
    ReadsToEnd rs ↔ (delivered rs).length < 2 ^ 32 - 1 :=
  ⟨short_of_readsToEnd, readsToEnd_of_short⟩

/-! ### A stream that is too long -/

/-- Some chunks, all the same, and then an empty result. -/
def repeatedChunk (n : ℕ) (chunk : Bytes) : List RecvResult :=
  List.replicate n (some chunk) ++ [some []]

/-- The same chunk over and over. -/
theorem delivered_repeatedChunk (n : ℕ) {chunk : Bytes} (hne : chunk ≠ []) :
    (delivered (repeatedChunk n chunk)).length = n * chunk.length := by
  unfold repeatedChunk
  induction n with
  | zero => rw [Nat.zero_mul]; rfl
  | succ n ih =>
    obtain ⟨c, cs, rfl⟩ := List.exists_cons_of_ne_nil hne
    rw [List.replicate_succ, List.cons_append, delivered, List.length_append, ih, Nat.succ_mul,
      Nat.add_comm]

/-- Chunks of 4095 bytes, as many as take a stream past 2³² bytes. -/
theorem readsToEnd_counterexample :
    ¬ ReadsToEnd (repeatedChunk 1048833 (List.replicate 4095 space)) := by
  intro h
  have hshort := short_of_readsToEnd h
  have hne : List.replicate 4095 space ≠ [] :=
    List.ne_nil_of_length_pos (by rw [List.length_replicate]; omega)
  rw [delivered_repeatedChunk _ hne, List.length_replicate] at hshort
  omega

end Evaluation
