import Evaluation.CxxLib
import Evaluation.Lib.Prog

namespace Evaluation

open Lib

/-!
# `SocketStream` — reading words and lines from a socket

The class of `TCPSocket.h` / `TCPSocket.cpp`: a buffer that grows by `recv`, a cursor of type
`unsigned int` into it, and a flag that is set by the first empty `recv` and never cleared.
Every method is a program over the members; the member `socket` holds what the calls of
`::recv` to come will give (past its end they fail, as they do on a silent connection).

Each `while` loop over the buffer is an instance of `skip`, which runs an index forward and
calls `grabIfNeeded` at every position it reaches.  The index is `tmp_pos` in `hasNext` and
`m_pos` itself elsewhere; nothing inside the loop reads `m_pos`, so the callers store the
index when the loop has ended.

The second half proves what does not depend on how the bytes arrive: `text`, the bytes
received so far and those still to come before the first empty `recv`, never changes
(`skip_returns`).
-/

/-- What one `::recv` gives: `none` for -1 (time-out, reset or any other error), and
    `some []` at the end of the stream. -/
abbrev RecvResult := Option Bytes

/-- The members of a `SocketStream`. -/
structure SocketStream where
  buffer : Bytes
  pos : UInt32
  timedOut : Bool
  socket : List RecvResult
  deriving DecidableEq, Repr

/-- Programs over a `SocketStream`. -/
abbrev StreamM := Prog Exn SocketStream

/-- `TCPSocket::recv` on an open socket: a failed `::recv` gives the empty string. -/
def recv : List RecvResult → Bytes × List RecvResult
  | [] => ([], [])
  | none :: rs => ([], rs)
  | some data :: rs => (data, rs)

namespace SocketStream

/-- The constructor. -/
def ofSocket (socket : List RecvResult) : SocketStream := ⟨[], 0, false, socket⟩

def grab : StreamM Unit :=
  Prog.modify fun s =>
    let (next, socket) := recv s.socket
    { s with
      buffer := s.buffer ++ next
      timedOut := s.timedOut || next.isEmpty
      socket := socket }

def grabIfNeeded (bufferPos : UInt32) : StreamM Unit := do
  let s ← Prog.get
  if bufferPos.toNat = s.buffer.length ∧ s.timedOut = false then grab else pure ()

/-- The test and the body of `while (i < m_buffer.length() && p(m_buffer[i])) {
    grab_if_needed(++i); }`. -/
def skipRound (p : UInt8 → Bool) (i : UInt32) : StreamM (UInt32 ⊕ UInt32) := do
  let s ← Prog.get
  if i.toNat < s.buffer.length ∧ p (s.buffer.getD i.toNat 0) = true then
    grabIfNeeded (i + 1)
    pure (.inl (i + 1))
  else pure (.inr i)

/-- That loop, from `i` on; returns the index it stops at. -/
def skip (p : UInt8 → Bool) (i : UInt32) : StreamM UInt32 := Prog.loop (skipRound p) i

/-- Let a library function return or throw. -/
def ofExcept {α : Type} : Except Exn α → StreamM α
  | .ok a => pure a
  | .error e => Prog.throw e

def hasNext : StreamM Bool := do
  let s ← Prog.get
  grabIfNeeded s.pos
  let tmpPos ← skip isspace s.pos
  let s ← Prog.get
  pure (decide (tmpPos.toNat < s.buffer.length))

def nextWord : StreamM Bytes := do
  let s ← Prog.get
  grabIfNeeded s.pos
  let startPos ← skip isspace s.pos
  let endPos ← skip (fun c => !isspace c) startPos
  Prog.modify fun s => { s with pos := endPos }
  let s ← Prog.get
  ofExcept (substr s.buffer startPos.toNat (endPos - startPos).toNat)

/-- `if (line.back() == '\r') { line.pop_back(); }`; the last byte of an empty line, which the
    library leaves undefined, is no CR. -/
def popCR (line : Bytes) : Bytes :=
  if line.getLast? = some carriageReturn then line.dropLast else line

/-- Where `nextLine` starts its line. -/
def lineStart (skipWhitespace : Bool) (i : UInt32) : StreamM UInt32 :=
  if skipWhitespace then skip isspace i else pure i

def nextLine (skipWhitespace : Bool) : StreamM Bytes := do
  let s ← Prog.get
  grabIfNeeded s.pos
  let startPos ← lineStart skipWhitespace s.pos
  let endPos ← skip (fun c => c != newline) startPos
  Prog.modify fun s => { s with pos := endPos + 1 }
  let s ← Prog.get
  let line ← ofExcept (substr s.buffer startPos.toNat (endPos - startPos).toNat)
  pure (popCR line)

/-- The test and the body of the loop of `remaining`: `m_pos` jumps to the buffer's length,
    cut to 32 bits. -/
def jumpRound (_ : Unit) : StreamM (Unit ⊕ Unit) := do
  let s ← Prog.get
  if s.pos.toNat < s.buffer.length then
    Prog.modify fun s => { s with pos := UInt32.ofNat s.buffer.length }
    grabIfNeeded (UInt32.ofNat s.buffer.length)
    pure (.inl ())
  else pure (.inr ())

/-- The loop of `remaining`. -/
def jumpToEnd : StreamM Unit := Prog.loop jumpRound ()

def remaining : StreamM Bytes := do
  let s ← Prog.get
  grabIfNeeded s.pos
  jumpToEnd
  let s' ← Prog.get
  ofExcept (substr s'.buffer s.pos.toNat s'.buffer.length)

def passedBuffer : StreamM Bytes := do
  let s ← Prog.get
  ofExcept (substr s.buffer 0 s.pos.toNat)

/-! ### The bytes of a connection -/

end SocketStream

/-- The bytes that arrive before the first empty `recv`. -/
def delivered : List RecvResult → Bytes
  | some (c :: cs) :: rs => (c :: cs) ++ delivered rs
  | _ => []

/-- One `recv` takes its bytes off the front; an empty one is the last that is looked at. -/
theorem recv_delivered (rs : List RecvResult) :
    delivered rs = (recv rs).1 ++ if (recv rs).1 = [] then [] else delivered (recv rs).2 := by
  match rs with
  | [] => rfl
  | none :: rs => rfl
  | some [] :: rs => rfl
  | some (c :: cs) :: rs => rfl

namespace SocketStream

/-- The bytes still to come. -/
def ahead (s : SocketStream) : Bytes := if s.timedOut then [] else delivered s.socket

/-- All bytes of the connection: those in the buffer and those still to come. -/
def text (s : SocketStream) : Bytes := s.buffer ++ s.ahead

/-- The position has been looked at: its byte is in the buffer, or nothing is to come. -/
def Looked (s : SocketStream) (i : UInt32) : Prop := i.toNat < s.buffer.length ∨ s.ahead = []

/-- `s'` is `s` after some calls of `recv`. -/
structure Grown (s s' : SocketStream) : Prop where
  text : s'.text = s.text
  pos : s'.pos = s.pos
  buffer : s.buffer <+: s'.buffer

theorem Grown.refl (s : SocketStream) : s.Grown s := ⟨rfl, rfl, List.prefix_refl _⟩

theorem Grown.trans {s s' s'' : SocketStream} (h : s.Grown s') (h' : s'.Grown s'') :
    s.Grown s'' := ⟨h'.text.trans h.text, h'.pos.trans h.pos, h.buffer.trans h'.buffer⟩

/-- The buffer is no longer than the text. -/
theorem buffer_length_le (s : SocketStream) : s.buffer.length ≤ s.text.length := by
  rw [text, List.length_append]
  omega

/-- When nothing is to come the buffer is the text. -/
theorem text_eq_buffer {s : SocketStream} (h : s.ahead = []) : s.text = s.buffer := by
  rw [text, h, List.append_nil]

/-- A byte in the buffer is that byte of the text. -/
theorem drop_text_of_lt {s : SocketStream} {i : ℕ} (h : i < s.buffer.length) :
    s.text.drop i = s.buffer.getD i 0 :: s.text.drop (i + 1) := by
  have hlt : i < s.text.length := lt_of_lt_of_le h s.buffer_length_le
  have hbyte : s.text[i] = s.buffer.getD i 0 := by
    rw [List.getD_eq_getElem?_getD, List.getElem?_eq_getElem h, Option.getD_some]
    exact List.getElem_append_left h
  rw [List.drop_eq_getElem_cons hlt, hbyte]

/-- A position that was looked at and lies behind the buffer lies behind the text. -/
theorem drop_text_of_looked {s : SocketStream} {i : UInt32} (hl : s.Looked i)
    (h : s.buffer.length ≤ i.toNat) : s.text.drop i.toNat = [] := by
  rcases hl with hlt | hnil
  · omega
  · rw [text_eq_buffer hnil]
    exact List.drop_eq_nil_of_le h

@[simp] theorem returns_ofExcept {α : Type} (x : Except Exn α) (s : SocketStream)
    (r : Outcome Exn SocketStream α) :
    (ofExcept x).Returns s r ↔ r = match x with
      | .ok a => .ok a s
      | .error e => .error e s := by
  cases x with
  | ok a => exact Prog.returns_pure a s r
  | error e => exact Prog.returns_throw e s r

@[simp] theorem returns_ofExcept_ok_bind {α β : Type} (a : α) (f : α → StreamM β)
    (s : SocketStream) (r : Outcome Exn SocketStream β) :
    (ofExcept (.ok a) >>= f).Returns s r ↔ (f a).Returns s r := Prog.returns_pure_bind a f s r

/-! ### Growing the buffer -/

/-- A call of `recv` keeps the text, and after it the end of the old buffer has been
    looked at. -/
theorem grab_returns (s : SocketStream) (hs : s.timedOut = false) :
    ∃ s', grab.Returns s (.ok () s') ∧ s.Grown s' ∧
      (s.buffer.length < s'.buffer.length ∨ s'.ahead = []) := by
  refine ⟨_, (Prog.returns_modify _ s _).mpr rfl, ⟨?_, rfl, List.prefix_append _ _⟩, ?_⟩
  · have h := recv_delivered s.socket
    simp only [text, ahead, hs, Bool.false_or, Bool.false_eq_true, if_false, h]
    by_cases hnext : (recv s.socket).1 = []
    · simp [hnext]
    · simp [hnext]
  · by_cases hnext : (recv s.socket).1 = []
    · exact .inr (by simp [ahead, hnext])
    · refine .inl ?_
      have hpos := List.length_pos_of_ne_nil hnext
      simp only [List.length_append]
      omega

/-- `grab_if_needed` at a position up to the end of the buffer looks at that position. -/
theorem grabIfNeeded_returns {s : SocketStream} {i : UInt32}
    (hi : i.toNat ≤ s.buffer.length ∨ s.ahead = []) :
    ∃ s', (grabIfNeeded i).Returns s (.ok () s') ∧ s.Grown s' ∧ s'.Looked i := by
  unfold grabIfNeeded
  simp only [Prog.returns_get_bind]
  by_cases h : i.toNat = s.buffer.length ∧ s.timedOut = false
  · obtain ⟨s', hret, hgrown, hlook⟩ := grab_returns s h.2
    exact ⟨s', by rw [if_pos h]; exact hret, hgrown, by rw [Looked, h.1]; exact hlook⟩
  · refine ⟨s, by rw [if_neg h, Prog.returns_pure], Grown.refl s, ?_⟩
    by_cases ht : s.timedOut = true
    · exact .inr (by rw [ahead, if_pos ht])
    · rw [Bool.not_eq_true] at ht
      rcases hi with hle | hnil
      · exact .inl (lt_of_le_of_ne hle fun heq => h ⟨heq, ht⟩)
      · exact .inr hnil

/-- A round of a scan that has to go on looks at the next position. -/
theorem skipRound_next {p : UInt8 → Bool} {s s' : SocketStream} {i : UInt32}
    (hlt : i.toNat < s.buffer.length) (hp : p (s.buffer.getD i.toNat 0) = true)
    (hgrab : (grabIfNeeded (i + 1)).Returns s (.ok () s')) :
    (skipRound p i).Returns s (.ok (.inl (i + 1)) s') := by
  unfold skipRound
  simp only [Prog.returns_get_bind, hlt, hp, and_self, if_true]
  rw [Prog.returns_bind_of_ok hgrab, Prog.returns_pure]

/-- A round of a scan that is at its end. -/
theorem skipRound_done {p : UInt8 → Bool} {s : SocketStream} {i : UInt32}
    (h : ¬ (i.toNat < s.buffer.length ∧ p (s.buffer.getD i.toNat 0) = true)) :
    (skipRound p i).Returns s (.ok (.inr i) s) := by
  unfold skipRound
  simp only [Prog.returns_get_bind, h, if_false, Prog.returns_pure]

/-- A round of `remaining`'s loop before the end of the buffer. -/
theorem jumpRound_next {s s' : SocketStream} (hlt : s.pos.toNat < s.buffer.length)
    (hgrab : (grabIfNeeded (UInt32.ofNat s.buffer.length)).Returns
      { s with pos := UInt32.ofNat s.buffer.length } (.ok () s')) :
    (jumpRound ()).Returns s (.ok (.inl ()) s') := by
  unfold jumpRound
  simp only [Prog.returns_get_bind, hlt, if_true, Prog.returns_modify_bind]
  rw [Prog.returns_bind_of_ok hgrab, Prog.returns_pure]

/-- A round of `remaining`'s loop at or past the end of the buffer. -/
theorem jumpRound_done {s : SocketStream} (hge : ¬ s.pos.toNat < s.buffer.length) :
    (jumpRound ()).Returns s (.ok (.inr ()) s) := by
  unfold jumpRound
  simp only [Prog.returns_get_bind, hge, if_false, Prog.returns_pure]

/-- **The scanning loop.** From a position that has been looked at, `skip p` stops behind the
    longest run of bytes of the text that satisfy `p`, provided that position fits the 32-bit
    index; the text stays as it is, and the position it stops at has been looked at. -/
theorem skip_returns (p : UInt8 → Bool) {s : SocketStream} {i : UInt32} (hl : s.Looked i)
    (hend : i.toNat + ((s.text.drop i.toNat).takeWhile p).length < 2 ^ 32) :
    ∃ j s', (skip p i).Returns s (.ok j s') ∧ s.Grown s' ∧ s'.Looked j ∧
      j.toNat = i.toNat + ((s.text.drop i.toNat).takeWhile p).length := by
  -- Induction on the bytes of the text from `i` on.
  induction htail : s.text.drop i.toNat generalizing s i with
  | nil =>
    have hge : ¬ i.toNat < s.buffer.length := by
      intro hlt
      rw [drop_text_of_lt hlt] at htail
      cases htail
    exact ⟨i, s, Prog.returns_loop_of_done (skipRound_done fun h => hge h.1), Grown.refl s, hl,
      by simp⟩
  | cons c rest ih =>
    have hlt : i.toNat < s.buffer.length := by
      by_contra hge
      rw [drop_text_of_looked hl (by omega)] at htail
      cases htail
    have hcons := drop_text_of_lt hlt
    rw [htail, List.cons.injEq] at hcons
    obtain ⟨hc, hrest⟩ := hcons
    by_cases hp : p c = true
    · rw [htail, List.takeWhile_cons_of_pos hp, List.length_cons] at hend
      have hnext : (i + 1).toNat = i.toNat + 1 := by
        rw [UInt32.toNat_add, UInt32.toNat_one]
        omega
      obtain ⟨s1, hgrab, hgrown, hlook⟩ := grabIfNeeded_returns (s := s) (i := i + 1)
        (.inl (by omega))
      have htail1 : s1.text.drop (i + 1).toNat = rest := by rw [hgrown.text, hnext, ← hrest]
      obtain ⟨j, s', hret, hgrown', hlook', hj⟩ := ih hlook
        (by rw [htail1, hnext]; omega) htail1
      refine ⟨j, s', ?_, hgrown.trans hgrown', hlook', ?_⟩
      · have hround := skipRound_next (p := p) hlt (by rw [← hc]; exact hp) hgrab
        exact (Prog.returns_loop_of_next hround _).mpr hret
      · rw [hj, hnext, List.takeWhile_cons_of_pos hp, List.length_cons]
        omega
    · refine ⟨i, s, Prog.returns_loop_of_done (skipRound_done ?_), Grown.refl s, hl, ?_⟩
      · rw [← hc]
        exact fun h => hp h.2
      · rw [List.takeWhile_cons_of_neg hp]
        rfl

end SocketStream

end Evaluation
