import Evaluation.Lib.Object
import Evaluation.Lib.Text
import Evaluation.SocketStream

namespace Evaluation

open Lib

/-!
# `SocketStream` refines a cursor over the whole text

`Cursor` is what a `SocketStream` is for: a position in a text that is all there.  Its
methods are total functions; nothing in them says how the text arrived.

* `Tracks s c` — the stream `s` stands for the cursor `c`: the same text, buffered or still to
  come, and the same position, which lies in the buffer unless nothing is to come;
* `hasNext_returns`, `nextWord_returns`, `nextLine_returns`, `remaining_returns`,
  `passedBuffer_returns` — each method answers as the cursor's does and keeps `Tracks`, as
  long as the position it reaches fits the 32-bit cursor of the class;
* `socketStream_simulates_cursor` — hence, on a text shorter than 2³² - 1, the class simulates
  the cursor call by call.
-/

/-- A position in a text. -/
structure Cursor where
  text : Bytes
  pos : ℕ
  deriving DecidableEq, Repr

namespace Cursor

/-- The bytes from the position on. -/
def rest (c : Cursor) : Bytes := c.text.drop c.pos

/-- Only a position at or before the end of the text can be read from. -/
def guarded {α : Type} (c : Cursor) (x : α) : Except Exn α :=
  if c.pos ≤ c.text.length then .ok x else .error .outOfRange

/-- A byte other than a blank lies ahead. -/
def hasNext (c : Cursor) : Bool := c.rest.any fun b => !isspace b

/-- The next run of bytes other than blanks. -/
def word (c : Cursor) : Bytes := (c.rest.dropWhile isspace).takeWhile fun b => !isspace b

/-- The position behind it. -/
def afterWord (c : Cursor) : Cursor :=
  { c with pos := c.pos + (c.rest.takeWhile isspace).length + c.word.length }

/-- The next run of bytes other than blanks; the position moves behind it. -/
def nextWord (c : Cursor) : Except Exn (Bytes × Cursor) := c.guarded (c.word, c.afterWord)

/-- The bytes up to the next newline, less one CR before it; the position moves behind the
    newline, and past the end of the text when there is none. -/
def nextLine (skipWhitespace : Bool) (c : Cursor) : Except Exn (Bytes × Cursor) :=
  let blanks := if skipWhitespace then c.rest.takeWhile isspace else []
  let line := lineOf newline (c.rest.drop blanks.length)
  c.guarded (SocketStream.popCR line,
    { c with pos := c.pos + blanks.length + line.length + 1 })

/-- All bytes from the position on; the position moves to the end. -/
def remaining (c : Cursor) : Except Exn (Bytes × Cursor) :=
  c.guarded (c.rest, { c with pos := c.text.length })

/-- The bytes before the position. -/
def passedBuffer (c : Cursor) : Bytes := c.text.take c.pos

/-- The cursor as 32 bits hold it. -/
def wrap (c : Cursor) : Cursor := { c with pos := c.pos % 2 ^ 32 }

/-- A cursor that fits 32 bits does not wrap. -/
theorem wrap_of_lt {c : Cursor} (h : c.pos < 2 ^ 32) : c.wrap = c := by
  rw [wrap, Nat.mod_eq_of_lt h]

@[simp] theorem afterWord_text (c : Cursor) : c.afterWord.text = c.text := rfl

/-- `nextWord` does not go back. -/
theorem pos_le_afterWord (c : Cursor) : c.pos ≤ c.afterWord.pos := by
  show c.pos ≤ c.pos + _ + _
  omega

/-- The blanks and the word that `nextWord` passes over lie within the text. -/
theorem afterWord_pos_le {c : Cursor} (h : c.pos ≤ c.text.length) :
    c.afterWord.pos ≤ c.text.length := by
  have hsplit := congrArg List.length (List.takeWhile_append_dropWhile (p := isspace) (l := c.rest))
  have hword : c.word.length ≤ (c.rest.dropWhile isspace).length :=
    (List.takeWhile_prefix _).length_le
  have hlen : c.rest.length = c.text.length - c.pos := List.length_drop
  rw [List.length_append] at hsplit
  show c.pos + _ + _ ≤ _
  omega

/-- The line that `nextLine` passes over lies within the text. -/
theorem nextLine_pos_le (skipWhitespace : Bool) {c : Cursor} (h : c.pos ≤ c.text.length) :
    let blanks := if skipWhitespace then c.rest.takeWhile isspace else []
    c.pos + blanks.length + (lineOf newline (c.rest.drop blanks.length)).length
      ≤ c.text.length := by
  intro blanks
  have hblanks : blanks.length ≤ c.rest.length := by
    show (if skipWhitespace then c.rest.takeWhile isspace else []).length ≤ _
    split
    · exact (List.takeWhile_prefix isspace).length_le
    · exact Nat.zero_le _
  have hline : (lineOf newline (c.rest.drop blanks.length)).length ≤ _ :=
    (List.takeWhile_prefix _).length_le
  have hrest : c.rest.length = c.text.length - c.pos := List.length_drop
  rw [List.length_drop] at hline
  omega

/-- Within the text nothing is thrown. -/
theorem guarded_of_le {α : Type} {c : Cursor} (h : c.pos ≤ c.text.length) (x : α) :
    c.guarded x = .ok x := if_pos h

/-- What returns has started within the text. -/
theorem guarded_eq_ok {α : Type} {c : Cursor} {x y : α} (h : c.guarded x = .ok y) :
    c.pos ≤ c.text.length ∧ x = y := by
  unfold guarded at h
  split at h
  · exact ⟨‹_›, Except.ok.inj h⟩
  · cases h

/-- What throws `out_of_range` has started behind the text. -/
theorem guarded_eq_error {α : Type} {c : Cursor} {x : α} {e : Exn}
    (h : c.guarded x = .error e) : c.text.length < c.pos ∧ e = .outOfRange := by
  unfold guarded at h
  split at h
  · cases h
  · exact ⟨by omega, (Except.error.inj h).symm⟩

end Cursor

/-! ### The relation -/

/-- The stream stands for the cursor. -/
structure Tracks (s : SocketStream) (c : Cursor) : Prop where
  text : s.text = c.text
  pos : s.pos.toNat = c.pos
  inBuffer : c.pos ≤ s.buffer.length ∨ s.ahead = []

/-- The cursor of a stream has 32 bits. -/
theorem Tracks.pos_lt {s : SocketStream} {c : Cursor} (h : Tracks s c) : c.pos < 2 ^ 32 := by
  rw [← h.pos]
  exact s.pos.toNat_lt

namespace SocketStream

/-- A fresh stream stands at the front of all that will be delivered. -/
theorem tracks_ofSocket (rs : List RecvResult) : Tracks (ofSocket rs) ⟨delivered rs, 0⟩ :=
  ⟨rfl, rfl, .inl (Nat.zero_le _)⟩

/-- A position looked at, within the text, lies in the buffer. -/
theorem le_buffer_of_looked {s : SocketStream} {i : UInt32} (hl : s.Looked i)
    (h : i.toNat ≤ s.text.length) : i.toNat ≤ s.buffer.length := by
  rcases hl with hlt | hnil
  · exact hlt.le
  · rwa [text_eq_buffer hnil] at h

/-- A substring that ends within the buffer is that part of the text. -/
theorem substr_buffer {s : SocketStream} {i n : ℕ} (h : i + n ≤ s.buffer.length) :
    substr s.buffer i n = .ok ((s.text.drop i).take n) := by
  rw [substr, if_pos (by omega), text, List.drop_append_of_le_length (by omega),
    List.take_append_of_le_length (by rw [List.length_drop]; omega)]

/-- A substring that starts past the end throws. -/
theorem substr_past {str : Bytes} {i : ℕ} (n : ℕ) (h : str.length < i) :
    substr str i n = .error .outOfRange := if_neg (by omega)

/-- The look-up at the start of every method: the position has been looked at. -/
theorem start_returns {s : SocketStream} {c : Cursor} (h : Tracks s c) :
    ∃ s', (grabIfNeeded s.pos).Returns s (.ok () s') ∧ s.Grown s' ∧ s'.Looked s.pos :=
  grabIfNeeded_returns (by rw [h.pos]; exact h.inBuffer)

/-- The scan of `nextLine` stops at the end of the line. -/
theorem skipLine_returns {s : SocketStream} {i : UInt32} (hl : s.Looked i)
    (hend : i.toNat + (lineOf newline (s.text.drop i.toNat)).length < 2 ^ 32) :
    ∃ j s', (skip (fun c => c != newline) i).Returns s (.ok j s') ∧ s.Grown s' ∧ s'.Looked j ∧
      j.toNat = i.toNat + (lineOf newline (s.text.drop i.toNat)).length :=
  skip_returns _ hl hend

/-- `hasNext` answers as the cursor does and moves nothing. -/
theorem hasNext_returns {s : SocketStream} {c : Cursor} (h : Tracks s c)
    (hend : c.pos + (c.rest.takeWhile isspace).length < 2 ^ 32) :
    ∃ s', hasNext.Returns s (.ok c.hasNext s') ∧ Tracks s' c := by
  obtain ⟨s1, hgrab, hgrown1, hlook1⟩ := start_returns h
  have hrest : s1.text.drop s.pos.toNat = c.rest := by rw [hgrown1.text, h.text, h.pos]; rfl
  obtain ⟨j, s2, hskip, hgrown2, hlook2, hj⟩ := skip_returns isspace hlook1
    (by rw [hrest, h.pos]; exact hend)
  have htext : s2.text = c.text := (hgrown1.trans hgrown2).text.trans h.text
  -- The position itself lies in the buffer again.
  have hin : c.pos ≤ s2.buffer.length ∨ s2.ahead = [] := by
    rcases hlook2 with hlt | hnil
    · exact .inl (by rw [← h.pos]; omega)
    · exact .inr hnil
  refine ⟨s2, ?_, ⟨htext, by rw [(hgrown1.trans hgrown2).pos, h.pos], hin⟩⟩
  unfold hasNext
  simp only [Prog.returns_get_bind]
  rw [Prog.returns_bind_of_ok hgrab, Prog.returns_bind_of_ok hskip]
  simp only [Prog.returns_get_bind, Prog.returns_pure, Outcome.ok.injEq, and_true]
  -- The scan stops in the buffer exactly when a byte other than a blank is left.
  rw [hrest] at hj
  have hdrop : s2.text.drop j.toNat = c.rest.dropWhile isspace := by
    rw [hj, htext, h.pos, ← List.drop_drop, ← drop_length_takeWhile isspace c.rest]
    rfl
  rw [Cursor.hasNext, any_not_eq, ← hdrop]
  by_cases hlt : j.toNat < s2.buffer.length
  · rw [drop_text_of_lt hlt]
    simp [hlt]
  · rw [drop_text_of_looked hlook2 (by omega)]
    simp [hlt]

/-- `nextWord` answers as the cursor does. -/
theorem nextWord_returns {s : SocketStream} {c c' : Cursor} {w : Bytes} (h : Tracks s c)
    (hc : c.nextWord = .ok (w, c')) (hend : c'.pos < 2 ^ 32) :
    ∃ s', nextWord.Returns s (.ok w s') ∧ Tracks s' c' := by
  obtain ⟨hle, hw⟩ := Cursor.guarded_eq_ok hc
  obtain ⟨rfl, rfl⟩ := Prod.mk.inj hw
  have hafter : c.afterWord.pos = c.pos + (c.rest.takeWhile isspace).length + c.word.length := rfl
  obtain ⟨s1, hgrab, hgrown1, hlook1⟩ := start_returns h
  have hrest : s1.text.drop s.pos.toNat = c.rest := by rw [hgrown1.text, h.text, h.pos]; rfl
  -- Over the blanks before the word.
  obtain ⟨j, s2, hskip1, hgrown2, hlook2, hj⟩ := skip_returns isspace hlook1
    (by rw [hrest, h.pos]; omega)
  rw [hrest, h.pos] at hj
  have htext2 : s2.text = c.text := (hgrown1.trans hgrown2).text.trans h.text
  have hword : s2.text.drop j.toNat = c.rest.dropWhile isspace := by
    rw [hj, htext2, ← List.drop_drop, ← drop_length_takeWhile isspace c.rest]
    rfl
  -- Over the word.
  obtain ⟨k, s3, hskip2, hgrown3, hlook3, hk⟩ := skip_returns (fun b => !isspace b) hlook2
    (by rw [hword, hj]; exact hend)
  rw [hword, hj] at hk
  have hk' : k.toNat = c.afterWord.pos := hk
  have htext3 : s3.text = c.text := hgrown3.text.trans htext2
  have hbuf : k.toNat ≤ s3.buffer.length :=
    le_buffer_of_looked hlook3 (by rw [htext3, hk']; exact Cursor.afterWord_pos_le hle)
  have hsub : (k - j).toNat = k.toNat - j.toNat := UInt32.toNat_sub_of_le _ _ (by
    rw [UInt32.le_iff_toNat_le]; omega)
  refine ⟨{ s3 with pos := k }, ?_, ⟨htext3, hk', .inl (by rw [← hk']; exact hbuf)⟩⟩
  unfold nextWord
  simp only [Prog.returns_get_bind]
  rw [Prog.returns_bind_of_ok hgrab, Prog.returns_bind_of_ok hskip1,
    Prog.returns_bind_of_ok hskip2]
  simp only [Prog.returns_modify_bind, Prog.returns_get_bind, returns_ofExcept]
  rw [substr_buffer (s := s3) (by omega), hgrown3.text, hword, hsub, hk, hj,
    Nat.add_sub_cancel_left, take_length_takeWhile]
  rfl

/-- `nextLine` answers as the cursor does, whether or not it passes over blanks first.  Its last
    `++` may wrap. -/
theorem nextLine_wraps {s : SocketStream} {c c' : Cursor} {skipWhitespace : Bool} {w : Bytes}
    (h : Tracks s c) (hc : c.nextLine skipWhitespace = .ok (w, c')) (hend : c'.pos ≤ 2 ^ 32) :
    ∃ s', (nextLine skipWhitespace).Returns s (.ok w s') ∧ Tracks s' c'.wrap := by
  obtain ⟨hle, hw⟩ := Cursor.guarded_eq_ok hc
  obtain ⟨rfl, rfl⟩ := Prod.mk.inj hw
  simp only at hend
  obtain ⟨s1, hgrab, hgrown1, hlook1⟩ := start_returns h
  have hrest : s1.text.drop s.pos.toNat = c.rest := by rw [hgrown1.text, h.text, h.pos]; rfl
  generalize hblanks : (if skipWhitespace then c.rest.takeWhile isspace else []) = blanks at *
  -- Over the blanks before the line, if asked to.
  have hstart : ∃ j s2, (lineStart skipWhitespace s.pos).Returns s1 (.ok j s2) ∧
      s1.Grown s2 ∧ s2.Looked j ∧ j.toNat = c.pos + blanks.length := by
    unfold lineStart
    cases skipWhitespace with
    | false => exact ⟨s.pos, s1, (Prog.returns_pure _ _ _).mpr rfl, Grown.refl s1, hlook1,
        by rw [← hblanks, h.pos]; rfl⟩
    | true =>
      simp only [if_true] at hblanks ⊢
      obtain ⟨j, s2, hskip, hgrown, hlook, hj⟩ := skip_returns isspace hlook1
        (by rw [hrest, h.pos, hblanks]; omega)
      exact ⟨j, s2, hskip, hgrown, hlook, by rw [hj, hrest, h.pos, hblanks]⟩
  obtain ⟨j, s2, hskip1, hgrown2, hlook2, hj⟩ := hstart
  have htext2 : s2.text = c.text := (hgrown1.trans hgrown2).text.trans h.text
  have hline : s2.text.drop j.toNat = c.rest.drop blanks.length := by
    rw [hj, htext2, ← List.drop_drop]
    rfl
  -- Over the line.
  obtain ⟨k, s3, hskip2, hgrown3, hlook3, hk⟩ := skipLine_returns hlook2
    (by rw [hline, hj]; omega)
  rw [hline, hj] at hk
  have htext3 : s3.text = c.text := hgrown3.text.trans htext2
  have hkt : k.toNat ≤ c.text.length := by
    have hle' := Cursor.nextLine_pos_le skipWhitespace hle
    simp only [hblanks] at hle'
    rw [hk]
    exact hle'
  have hbuf : k.toNat ≤ s3.buffer.length := le_buffer_of_looked hlook3 (by rw [htext3]; exact hkt)
  have hsub : (k - j).toNat = k.toNat - j.toNat := UInt32.toNat_sub_of_le _ _ (by
    rw [UInt32.le_iff_toNat_le]; omega)
  have hnext : (k + 1).toNat = (c.pos + blanks.length
      + (lineOf newline (c.rest.drop blanks.length)).length + 1) % 2 ^ 32 := by
    rw [UInt32.toNat_add, UInt32.toNat_one, hk]
  refine ⟨{ s3 with pos := k + 1 }, ?_, ⟨htext3, hnext, ?_⟩⟩
  · unfold nextLine
    simp only [Prog.returns_get_bind]
    rw [Prog.returns_bind_of_ok hgrab, Prog.returns_bind_of_ok hskip1,
      Prog.returns_bind_of_ok hskip2]
    simp only [Prog.returns_modify_bind, Prog.returns_get_bind]
    rw [substr_buffer (s := s3) (by omega), hgrown3.text, hline, hsub, hk, hj,
      Nat.add_sub_cancel_left, take_length_lineOf]
    exact (Prog.returns_pure _ _ _).mpr rfl
  · -- Behind the newline, or one past the end, where nothing is to come, or back at the start.
    refine hlook3.imp_left fun hlt => (Nat.mod_le _ _).trans ?_
    rw [← hk]
    exact hlt

/-- `nextLine` on a stream that tracks a cursor, where that fits 32 bits. -/
theorem nextLine_returns {s : SocketStream} {c c' : Cursor} {skipWhitespace : Bool} {w : Bytes}
    (h : Tracks s c) (hc : c.nextLine skipWhitespace = .ok (w, c')) (hend : c'.pos < 2 ^ 32) :
    ∃ s', (nextLine skipWhitespace).Returns s (.ok w s') ∧ Tracks s' c' := by
  have hwraps := nextLine_wraps h hc (Nat.le_of_lt hend)
  rwa [Cursor.wrap_of_lt hend] at hwraps

/-- The jumping loop of `remaining` ends at the end of the text, when that fits the 32-bit
    cursor. -/
theorem jumpToEnd_returns {s : SocketStream} (hl : s.Looked s.pos)
    (hpos : s.pos.toNat ≤ s.text.length) (hend : s.text.length < 2 ^ 32) :
    ∃ s', jumpToEnd.Returns s (.ok () s') ∧ s'.text = s.text ∧ s'.ahead = [] ∧
      s'.pos.toNat = s.text.length := by
  -- Induction on the number of bytes that are not behind the cursor yet.
  induction hn : s.text.length - s.pos.toNat using Nat.strong_induction_on generalizing s with
  | _ n ih =>
    by_cases hlt : s.pos.toNat < s.buffer.length
    · have hbuf := s.buffer_length_le
      have hjump : (UInt32.ofNat s.buffer.length).toNat = s.buffer.length :=
        UInt32.toNat_ofNat_of_lt' (by rw [UInt32.size]; omega)
      obtain ⟨s1, hgrab, hgrown, hlook⟩ := grabIfNeeded_returns
        (s := { s with pos := UInt32.ofNat s.buffer.length })
        (i := UInt32.ofNat s.buffer.length) (.inl (by rw [hjump]))
      have htext1 : s1.text = s.text := hgrown.text
      have hpos1 : s1.pos = UInt32.ofNat s.buffer.length := hgrown.pos
      obtain ⟨s', hret, htext, hahead, hpos'⟩ := ih (s1.text.length - s1.pos.toNat)
        (by rw [htext1, hpos1, hjump]; omega) (s := s1) (by rw [hpos1]; exact hlook)
        (by rw [htext1, hpos1, hjump]; exact hbuf) (by rw [htext1]; exact hend) rfl
      refine ⟨s', ?_, htext.trans htext1, hahead, by rw [hpos', htext1]⟩
      exact (Prog.returns_loop_of_next (jumpRound_next hlt hgrab) _).mpr hret
    · have hnil : s.ahead = [] := by
        rcases hl with h | h
        · exact absurd h hlt
        · exact h
      refine ⟨s, Prog.returns_loop_of_done (jumpRound_done hlt), rfl, hnil, ?_⟩
      rw [text_eq_buffer hnil] at hpos ⊢
      omega

/-- `remaining` answers as the cursor does. -/
theorem remaining_returns {s : SocketStream} {c c' : Cursor} {w : Bytes} (h : Tracks s c)
    (hc : c.remaining = .ok (w, c')) (hend : c'.pos < 2 ^ 32) :
    ∃ s', remaining.Returns s (.ok w s') ∧ Tracks s' c' := by
  obtain ⟨hle, hw⟩ := Cursor.guarded_eq_ok hc
  obtain ⟨rfl, rfl⟩ := Prod.mk.inj hw
  simp only at hend
  obtain ⟨s1, hgrab, hgrown1, hlook1⟩ := start_returns h
  have htext1 : s1.text = c.text := hgrown1.text.trans h.text
  obtain ⟨s2, hjump, htext2, hahead, hpos2⟩ := jumpToEnd_returns (s := s1)
    (by rw [hgrown1.pos]; exact hlook1) (by rw [hgrown1.pos, htext1, h.pos]; exact hle)
    (by rw [htext1]; exact hend)
  have htext : s2.text = c.text := htext2.trans htext1
  have hbuf : s2.buffer = c.text := by rw [← htext, text_eq_buffer hahead]
  refine ⟨s2, ?_, ⟨htext, by rw [hpos2, htext1], .inr hahead⟩⟩
  unfold remaining
  simp only [Prog.returns_get_bind]
  rw [Prog.returns_bind_of_ok hgrab, Prog.returns_bind_of_ok hjump]
  simp only [Prog.returns_get_bind, returns_ofExcept, hbuf, h.pos]
  rw [substr, if_pos hle, List.take_of_length_le (by rw [List.length_drop]; omega)]
  rfl

/-- `passedBuffer` answers as the cursor does and moves nothing. -/
theorem passedBuffer_returns {s : SocketStream} {c : Cursor} (h : Tracks s c) :
    passedBuffer.Returns s (.ok c.passedBuffer s) := by
  have htake : (s.buffer.drop 0).take s.pos.toNat = c.passedBuffer := by
    rw [List.drop_zero, Cursor.passedBuffer, ← h.text, h.pos]
    rcases h.inBuffer with hle | hnil
    · rw [text, List.take_append_of_le_length hle]
    · rw [text_eq_buffer hnil]
  unfold passedBuffer
  simp only [Prog.returns_get_bind, returns_ofExcept]
  rw [substr, if_pos (Nat.zero_le _), htake]

/-! ### Past the end -/

/-- Past the end of the text nothing is to come, and a scan stops where it starts. -/
theorem skip_returns_past {s : SocketStream} (p : UInt8 → Bool) {i : UInt32}
    (hi : s.buffer.length < i.toNat) : (skip p i).Returns s (.ok i s) :=
  Prog.returns_loop_of_done (skipRound_done fun h => absurd h.1 (by omega))

/-- A position behind the buffer makes `grab_if_needed` read nothing. -/
theorem grabIfNeeded_returns_past {s : SocketStream} {i : UInt32}
    (hi : s.buffer.length < i.toNat) : (grabIfNeeded i).Returns s (.ok () s) := by
  have hne : ¬ (i.toNat = s.buffer.length ∧ s.timedOut = false) := by omega
  unfold grabIfNeeded
  simp only [Prog.returns_get_bind, hne, if_false, Prog.returns_pure]

/-- Behind the buffer `nextWord` throws. -/
theorem nextWord_throws {s : SocketStream} (hs : s.buffer.length < s.pos.toNat) :
    ∃ s', nextWord.Returns s (.error .outOfRange s') := by
  refine ⟨{ s with pos := s.pos }, ?_⟩
  unfold nextWord
  simp only [Prog.returns_get_bind]
  rw [Prog.returns_bind_of_ok (grabIfNeeded_returns_past hs),
    Prog.returns_bind_of_ok (skip_returns_past isspace hs),
    Prog.returns_bind_of_ok (skip_returns_past _ hs)]
  simp only [Prog.returns_modify_bind, Prog.returns_get_bind, returns_ofExcept, substr_past _ hs]

/-- Behind the buffer `nextLine` throws. -/
theorem nextLine_throws {s : SocketStream} (skipWhitespace : Bool)
    (hs : s.buffer.length < s.pos.toNat) :
    ∃ s', (nextLine skipWhitespace).Returns s (.error .outOfRange s') := by
  refine ⟨{ s with pos := s.pos + 1 }, ?_⟩
  have hstart : (lineStart skipWhitespace s.pos).Returns s (.ok s.pos s) := by
    cases skipWhitespace with
    | false => exact (Prog.returns_pure _ _ _).mpr rfl
    | true => exact skip_returns_past isspace hs
  unfold nextLine
  simp only [Prog.returns_get_bind]
  rw [Prog.returns_bind_of_ok (grabIfNeeded_returns_past hs), Prog.returns_bind_of_ok hstart,
    Prog.returns_bind_of_ok (skip_returns_past _ hs)]
  simp only [Prog.returns_modify_bind, Prog.returns_get_bind, substr_past _ hs]
  exact (Prog.returns_throw_bind _ _ _ _).mpr rfl

/-- Behind the buffer `remaining` throws. -/
theorem remaining_throws {s : SocketStream} (hs : s.buffer.length < s.pos.toNat) :
    ∃ s', remaining.Returns s (.error .outOfRange s') := by
  refine ⟨s, ?_⟩
  have hlt : ¬ s.pos.toNat < s.buffer.length := by omega
  have hjump : jumpToEnd.Returns s (.ok () s) :=
    Prog.returns_loop_of_done (jumpRound_done hlt)
  unfold remaining
  simp only [Prog.returns_get_bind]
  rw [Prog.returns_bind_of_ok (grabIfNeeded_returns_past hs), Prog.returns_bind_of_ok hjump]
  simp only [Prog.returns_get_bind, returns_ofExcept, substr_past _ hs]

end SocketStream

/-! ### Sequences of calls -/

/-- The methods a caller may use. -/
inductive StreamCall where
  | hasNext
  | nextWord
  | nextLine (skipWhitespace : Bool)
  | remaining
  | passedBuffer
  deriving DecidableEq, Repr

/-- What they answer. -/
inductive StreamAnswer where
  | bool (b : Bool)
  | str (w : Bytes)
  deriving DecidableEq, Repr

/-- The call on a `SocketStream`. -/
def SocketStream.call : StreamCall → StreamM StreamAnswer
  | .hasNext => do let b ← hasNext; pure (.bool b)
  | .nextWord => do let w ← nextWord; pure (.str w)
  | .nextLine skipWhitespace => do let w ← nextLine skipWhitespace; pure (.str w)
  | .remaining => do let w ← remaining; pure (.str w)
  | .passedBuffer => do let w ← passedBuffer; pure (.str w)

/-- The call on the cursor. -/
def Cursor.call (call : StreamCall) (c : Cursor) : Except Exn (StreamAnswer × Cursor) :=
  match call with
  | .hasNext => .ok (.bool c.hasNext, c)
  | .nextWord => c.nextWord.map fun p => (.str p.1, p.2)
  | .nextLine skipWhitespace => (c.nextLine skipWhitespace).map fun p => (.str p.1, p.2)
  | .remaining => c.remaining.map fun p => (.str p.1, p.2)
  | .passedBuffer => .ok (.str c.passedBuffer, c)

/-- **Call by call.** On a text shorter than 2³² - 1 the class answers every call as the
    cursor does. -/
theorem socketStream_simulates_cursor (S : Bytes) (hS : S.length < 2 ^ 32 - 1) :
    Simulates SocketStream.call Cursor.call (fun s c => Tracks s c ∧ c.text = S) := by
  rintro call s c ⟨h, rfl⟩
  have hrest : c.rest.length = c.text.length - c.pos := List.length_drop
  have hpos32 : c.pos < 2 ^ 32 := h.pos_lt
  -- Where the cursor throws, the position is past the buffer.
  have hpast : c.text.length < c.pos → s.buffer.length < s.pos.toNat := by
    intro hlt
    have hbuf := s.buffer_length_le
    rw [h.text] at hbuf
    rw [h.pos]
    omega
  cases call with
  | hasNext =>
    have hblanks := (List.takeWhile_prefix (l := c.rest) isspace).length_le
    obtain ⟨s', hret, htracks⟩ := SocketStream.hasNext_returns h (by omega)
    exact ⟨s', (Prog.returns_bind_of_ok hret _).mpr ((Prog.returns_pure _ _ _).mpr rfl),
      htracks, rfl⟩
  | nextWord =>
    refine Alike.map StreamAnswer.str ?_
    cases hc : c.nextWord with
    | ok p =>
      obtain ⟨hle, rfl⟩ := Cursor.guarded_eq_ok hc
      have hafter := Cursor.afterWord_pos_le hle
      obtain ⟨s', hret, htracks⟩ := SocketStream.nextWord_returns h hc (by omega)
      exact ⟨s', hret, htracks, rfl⟩
    | error e =>
      obtain ⟨hlt, rfl⟩ := Cursor.guarded_eq_error hc
      exact SocketStream.nextWord_throws (hpast hlt)
  | nextLine skipWhitespace =>
    refine Alike.map StreamAnswer.str ?_
    cases hc : c.nextLine skipWhitespace with
    | ok p =>
      obtain ⟨hle, rfl⟩ := Cursor.guarded_eq_ok hc
      have hline := Cursor.nextLine_pos_le skipWhitespace hle
      obtain ⟨s', hret, htracks⟩ := SocketStream.nextLine_returns h hc
        (by show c.pos + _ + _ + 1 < _; omega)
      exact ⟨s', hret, htracks, rfl⟩
    | error e =>
      obtain ⟨hlt, rfl⟩ := Cursor.guarded_eq_error hc
      exact SocketStream.nextLine_throws skipWhitespace (hpast hlt)
  | remaining =>
    refine Alike.map StreamAnswer.str ?_
    cases hc : c.remaining with
    | ok p =>
      obtain ⟨hle, rfl⟩ := Cursor.guarded_eq_ok hc
      obtain ⟨s', hret, htracks⟩ := SocketStream.remaining_returns h hc
        (by show c.text.length < _; omega)
      exact ⟨s', hret, htracks, rfl⟩
    | error e =>
      obtain ⟨hlt, rfl⟩ := Cursor.guarded_eq_error hc
      exact SocketStream.remaining_throws (hpast hlt)
  | passedBuffer =>
    have hret := SocketStream.passedBuffer_returns h
    exact ⟨s, (Prog.returns_bind_of_ok hret _).mpr ((Prog.returns_pure _ _ _).mpr rfl), h, rfl⟩

end Evaluation
