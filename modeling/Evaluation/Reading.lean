import Evaluation.Overlong
import Evaluation.ParserRefines

namespace Evaluation

open Lib SocketStream

/-!
# Reading with `hasNext` in front

Callers of a `SocketStream` ask `hasNext` before they read, as the unit tests do with the loop
`while (ss.hasNext()) { word = ss.nextWord(); }`.

* `collectWords_returns` — on a stream shorter than 2³² - 1 that loop ends, the words are the
  `tokens` of all that is delivered, and `str` then gives all of it;
* `reads_of_hasNext` — in every state that calls lead to, on a stream of any length, a method
  called where `hasNext` answers `true` does not throw.
-/

namespace SocketStream

/-- `str()`. -/
def str : StreamM Bytes := do
  let s ← Prog.get
  pure s.buffer

/-- The test and the body of `while (ss.hasNext()) { words.push_back(ss.nextWord()); }`. -/
def wordRound (collected : List Bytes) : StreamM (List Bytes ⊕ List Bytes) := do
  let more ← hasNext
  if more then do
    let word ← nextWord
    pure (.inl (collected ++ [word]))
  else pure (.inr collected)

/-- That loop, which starts with no words. -/
def collectWords : StreamM (List Bytes) := Prog.loop wordRound []

end SocketStream

/-! ### Word by word -/

namespace Cursor

/-- Where `hasNext` answers `false` there is no word ahead. -/
theorem hasNext_eq_false {c : Cursor} (h : c.hasNext = false) : tokens c.rest = [] := by
  rw [hasNext, any_not_eq_not_all, Bool.not_eq_false'] at h
  exact tokens_eq_nil_iff.mpr h

/-- Where it answers `true` there is one. -/
theorem hasNext_eq_true {c : Cursor} (h : c.hasNext = true) : tokens c.rest ≠ [] := by
  intro hnil
  rw [hasNext, any_not_eq_not_all, tokens_eq_nil_iff.mp hnil] at h
  cases h

/-- What lies ahead is what the text has behind the cursor. -/
theorem rest_length (c : Cursor) : c.rest.length = c.text.length - c.pos := List.length_drop

end Cursor

/-- A stream that tracks a cursor is one over its text. -/
theorem Tracks.over {s : SocketStream} {c : Cursor} (h : Tracks s c) : Over c.text s :=
  ⟨h.text, by rw [h.pos]; exact h.inBuffer⟩

/-- Where `hasNext` finds nothing, all has arrived. -/
theorem buffer_of_hasNext {T : Bytes} {s s' : SocketStream} (hs : Over T s)
    (h : hasNext.Returns s (.ok false s')) : s'.buffer = T := by
  obtain ⟨s1, hgrab, hgrown1, hlook1⟩ := grabIfNeeded_returns hs.inBuffer
  unfold hasNext at h
  rw [Prog.returns_get_bind, Prog.returns_bind_of_ok hgrab] at h
  rcases (Prog.returns_bind ..).mp h with ⟨j, s2, hskip, hrest⟩ | ⟨e, s2, hskip, hr⟩
  · obtain ⟨_, _, ⟨⟩, hgrown2, hlook2, -⟩ := skip_safe isspace hlook1 _ hskip
    rw [Prog.returns_get_bind, Prog.returns_pure] at hrest
    obtain ⟨hfalse, rfl⟩ := Outcome.ok.inj hrest
    -- The scan stopped behind the buffer, at a position that it had looked at.
    have hge : ¬ j.toNat < s'.buffer.length := of_decide_eq_false hfalse.symm
    rw [← text_eq_buffer (hlook2.resolve_left hge), hgrown2.text, hgrown1.text, hs.text]
  · cases hr

/-- A round that finds a word. -/
theorem wordRound_next {s : SocketStream} {c : Cursor} (collected : List Bytes) (h : Tracks s c)
    (hpos : c.pos ≤ c.text.length) (hlen : c.text.length < 2 ^ 32 - 1)
    (hmore : c.hasNext = true) :
    ∃ s', (wordRound collected).Returns s (.ok (.inl (collected ++ [c.word])) s') ∧
      Tracks s' c.afterWord := by
  have hblanks := (List.takeWhile_prefix (l := c.rest) isspace).length_le
  have hrest := c.rest_length
  have hafter := Cursor.afterWord_pos_le hpos
  obtain ⟨s1, hret1, htr1⟩ := hasNext_returns h (by omega)
  obtain ⟨s2, hret2, htr2⟩ := nextWord_tracks htr1 hpos (by omega)
  refine ⟨s2, ?_, htr2⟩
  unfold wordRound
  rw [Prog.returns_bind_of_ok hret1, hmore, if_pos rfl, Prog.returns_bind_of_ok hret2]
  exact (Prog.returns_pure _ _ _).mpr rfl

/-- A round that finds none. -/
theorem wordRound_done {s : SocketStream} {c : Cursor} (collected : List Bytes) (h : Tracks s c)
    (hpos : c.pos ≤ c.text.length) (hlen : c.text.length < 2 ^ 32 - 1)
    (hmore : c.hasNext = false) :
    ∃ s', (wordRound collected).Returns s (.ok (.inr collected) s') ∧ s'.buffer = c.text := by
  have hblanks := (List.takeWhile_prefix (l := c.rest) isspace).length_le
  have hrest := c.rest_length
  obtain ⟨s1, hret1, -⟩ := hasNext_returns h (by omega)
  rw [hmore] at hret1
  refine ⟨s1, ?_, buffer_of_hasNext h.over hret1⟩
  unfold wordRound
  rw [Prog.returns_bind_of_ok hret1, if_neg Bool.false_ne_true]
  exact (Prog.returns_pure _ _ _).mpr rfl

/-- **The loop** collects the words that lie ahead. -/
theorem wordLoop_returns {s : SocketStream} {c : Cursor} (collected : List Bytes)
    (h : Tracks s c) (hpos : c.pos ≤ c.text.length) (hlen : c.text.length < 2 ^ 32 - 1) :
    ∃ s', (Prog.loop wordRound collected).Returns s (.ok (collected ++ tokens c.rest) s') ∧
      s'.buffer = c.text := by
  -- Induction on the words that are left.
  induction hwords : tokens c.rest generalizing s c collected with
  | nil =>
    have hmore : c.hasNext = false := by
      by_contra hne
      exact Cursor.hasNext_eq_true (Bool.eq_true_of_not_eq_false hne) hwords
    obtain ⟨s', hround, hbuf⟩ := wordRound_done collected h hpos hlen hmore
    refine ⟨s', ?_, hbuf⟩
    rw [List.append_nil]
    exact Prog.returns_loop_of_done hround
  | cons w ws ih =>
    have hmore : c.hasNext = true := by
      by_contra hne
      rw [Cursor.hasNext_eq_false (Bool.eq_false_of_not_eq_true hne)] at hwords
      cases hwords
    have hstep := tokens_step (Cursor.hasNext_eq_true hmore)
    rw [hwords, List.cons.injEq, ← Cursor.rest_afterWord] at hstep
    obtain ⟨rfl, hrest⟩ := hstep
    obtain ⟨s1, hround, htr1⟩ := wordRound_next collected h hpos hlen hmore
    obtain ⟨s', hret, hbuf⟩ := ih (collected ++ [c.word]) htr1 (Cursor.afterWord_pos_le hpos) hlen
      hrest.symm
    refine ⟨s', (Prog.returns_loop_of_next hround _).mpr ?_, hbuf⟩
    rw [List.append_assoc] at hret
    exact hret

/-- **Iterating over the words** of a stream gives the words of all that is delivered, cut at
    blanks only, and has then received all of it. -/
theorem collectWords_returns (rs : List RecvResult) (hlen : (delivered rs).length < 2 ^ 32 - 1) :
    ∃ s', collectWords.Returns (ofSocket rs) (.ok (tokens (delivered rs)) s') ∧
      str.Returns s' (.ok (delivered rs) s') := by
  obtain ⟨s', hret, hbuf⟩ := wordLoop_returns [] (tracks_ofSocket rs) (Nat.zero_le _) hlen
  refine ⟨s', hret, ?_⟩
  unfold str
  rw [Prog.returns_get_bind, hbuf]
  exact (Prog.returns_pure _ _ _).mpr rfl

/-- Two words, the first of which comes in three pieces, with blanks in two. -/
theorem collectWords_pieces :
    ∃ s', collectWords.Returns (ofSocket [some (bytes "dre"), some (bytes "ar"),
        some (bytes "y, "), some (bytes "\nwhile "), none, some (bytes "late")])
      (.ok [bytes "dreary,", bytes "while"] s') ∧
      str.Returns s' (.ok (bytes "dreary, \nwhile ") s') :=
  collectWords_returns [some (bytes "dre"), some (bytes "ar"), some (bytes "y, "),
    some (bytes "\nwhile "), none, some (bytes "late")] (by decide)

/-! ### Reading where something is left -/

/-- The method returns, if it ever ends. -/
def NoThrow {α : Type} (x : StreamM α) (s : SocketStream) : Prop :=
  x.Safe s fun o => ∃ a s', o = .ok a s'

/-- A scan that starts in the buffer or at its end stops there. -/
theorem skip_inside (p : UInt8 → Bool) {s : SocketStream} {i : UInt32}
    (hi : i.toNat ≤ s.buffer.length) :
    (skip p i).Safe s fun o => ∃ j s', o = .ok j s' ∧ j.toNat ≤ s'.buffer.length := by
  refine Prog.safe_loop (fun i s' => i.toNat ≤ s'.buffer.length) ?_ hi
  intro i s1 hi o hround
  by_cases hmore : i.toNat < s1.buffer.length ∧ p (s1.buffer.getD i.toNat 0) = true
  · have hle := toNat_succ_le i
    obtain ⟨s2, hgrab, hgrown, -⟩ := grabIfNeeded_returns (s := s1) (i := i + 1) (.inl (by omega))
    have hbuf := hgrown.buffer.length_le
    rw [hround.unique (skipRound_next hmore.1 hmore.2 hgrab)]
    show (i + 1).toNat ≤ s2.buffer.length
    omega
  · rw [hround.unique (skipRound_done hmore)]
    exact ⟨i, s1, rfl, hi⟩

/-- A substring that starts within the buffer. -/
theorem noThrow_substr {s : SocketStream} {i : ℕ} (hi : i ≤ s.buffer.length) (n : ℕ) :
    NoThrow (ofExcept (substr s.buffer i n)) s := by
  intro o ho
  rw [substr, if_pos hi, returns_ofExcept] at ho
  exact ⟨_, s, ho⟩

/-- The scan of a word or a line, from a position in the buffer, keeps that position there. -/
theorem skip_keeps_start (p : UInt8 → Bool) {s : SocketStream} {i : UInt32}
    (hi : i.toNat ≤ s.buffer.length) (hl : s.Looked i) :
    (skip p i).Safe s fun o => ∃ j s', o = .ok j s' ∧ i.toNat ≤ s'.buffer.length := by
  refine (skip_safe p hl).mono ?_
  rintro _ ⟨j, s', rfl, hgrown, -⟩
  exact ⟨j, s', rfl, hi.trans hgrown.buffer.length_le⟩

/-- Within the buffer `nextWord` does not throw. -/
theorem nextWord_noThrow {s : SocketStream} (hs : s.pos.toNat ≤ s.buffer.length) :
    NoThrow nextWord s := by
  obtain ⟨s1, hgrab, hgrown1, hlook1⟩ := grabIfNeeded_returns (i := s.pos) (.inl hs)
  unfold NoThrow nextWord
  rw [Prog.safe_get_bind, Prog.safe_bind_of_ok hgrab]
  have hstart := hs.trans hgrown1.buffer.length_le
  intro o ho
  rcases (Prog.returns_bind ..).mp ho with ⟨i, s2, hskip, ho⟩ | ⟨e, s2, hskip, rfl⟩
  · obtain ⟨_, _, ⟨⟩, hi⟩ := skip_inside isspace hstart _ hskip
    obtain ⟨_, _, ⟨⟩, -, hlook2, -⟩ := skip_safe isspace hlook1 _ hskip
    rcases (Prog.returns_bind ..).mp ho with ⟨j, s3, hskip', ho⟩ | ⟨e, s3, hskip', rfl⟩
    · obtain ⟨_, _, ⟨⟩, hi'⟩ := skip_keeps_start _ hi hlook2 _ hskip'
      rw [Prog.returns_modify_bind, Prog.returns_get_bind] at ho
      exact noThrow_substr (s := { s3 with pos := j }) hi' _ o ho
    · obtain ⟨_, _, ⟨⟩, -⟩ := skip_safe _ hlook2 _ hskip'
  · obtain ⟨_, _, ⟨⟩, -⟩ := skip_safe isspace hlook1 _ hskip

/-- Within the buffer `nextLine` does not throw. -/
theorem nextLine_noThrow (skipWhitespace : Bool) {s : SocketStream}
    (hs : s.pos.toNat ≤ s.buffer.length) : NoThrow (nextLine skipWhitespace) s := by
  obtain ⟨s1, hgrab, hgrown1, hlook1⟩ := grabIfNeeded_returns (i := s.pos) (.inl hs)
  have hpos := hs.trans hgrown1.buffer.length_le
  -- The line starts within the buffer, whether blanks are skipped or not.
  have hstart : (lineStart skipWhitespace s.pos).Safe s1 fun o =>
      ∃ i s', o = .ok i s' ∧ i.toNat ≤ s'.buffer.length ∧ s'.Looked i := by
    cases skipWhitespace with
    | false => exact (Prog.safe_pure ..).mpr ⟨s.pos, s1, rfl, hpos, hlook1⟩
    | true =>
      intro o hskip
      obtain ⟨i, s2, rfl, hi⟩ := skip_inside isspace hpos o hskip
      obtain ⟨_, _, ⟨⟩, -, hlook2, -⟩ := skip_safe isspace hlook1 _ hskip
      exact ⟨i, s2, rfl, hi, hlook2⟩
  unfold NoThrow nextLine
  rw [Prog.safe_get_bind, Prog.safe_bind_of_ok hgrab]
  refine hstart.bind ?_ ?_
  · rintro i s2 ⟨_, _, ⟨⟩, hi, hlook2⟩
    refine (skip_keeps_start _ hi hlook2).bind ?_ ?_
    · rintro j s3 ⟨_, _, ⟨⟩, hi'⟩
      -- `substr` throws only on a start past the end.
      rw [Prog.safe_modify_bind, Prog.safe_get_bind]
      refine (noThrow_substr (s := { s3 with pos := j + 1 }) hi' _).bind ?_ ?_
      · exact fun line s4 _ => (Prog.safe_pure ..).mpr ⟨_, _, rfl⟩
      · rintro _ _ ⟨_, _, ⟨⟩⟩
    · rintro _ _ ⟨_, _, ⟨⟩, -⟩
  · rintro _ _ ⟨_, _, ⟨⟩, -⟩

/-- The loop of `remaining` keeps the text, and leaves the cursor where it has looked. -/
theorem jumpToEnd_safe {s : SocketStream} (hs : s.Looked s.pos) :
    jumpToEnd.Safe s fun o => ∃ s', o = .ok () s' ∧ s'.text = s.text ∧ s'.Looked s'.pos ∧
      s.buffer.length ≤ s'.buffer.length := by
  -- What every round keeps: the text, a cursor that was looked at, and a buffer that only grows.
  refine Prog.safe_loop (fun _ s' => s'.text = s.text ∧ s'.Looked s'.pos ∧
    s.buffer.length ≤ s'.buffer.length) ?_ ⟨rfl, hs, le_rfl⟩
  rintro _ s1 ⟨htext, hlook, hbuf⟩ o hround
  by_cases hmore : s1.pos.toNat < s1.buffer.length
  · -- The cursor jumps to the length cut to 32 bits, which is not past the end.
    have hle : (UInt32.ofNat s1.buffer.length).toNat ≤ s1.buffer.length := by
      rw [UInt32.toNat_ofNat']
      exact Nat.mod_le _ _
    obtain ⟨s2, hgrab, hgrown, hlook2⟩ := grabIfNeeded_returns
      (s := { s1 with pos := UInt32.ofNat s1.buffer.length })
      (i := UInt32.ofNat s1.buffer.length) (.inl hle)
    rw [hround.unique (jumpRound_next hmore hgrab)]
    refine ⟨hgrown.text.trans htext, ?_, hbuf.trans hgrown.buffer.length_le⟩
    rw [hgrown.pos]
    exact hlook2
  · rw [hround.unique (jumpRound_done hmore)]
    exact ⟨s1, rfl, htext, hlook, hbuf⟩

/-- Within the buffer `remaining` does not throw. -/
theorem remaining_noThrow {s : SocketStream} (hs : s.pos.toNat ≤ s.buffer.length) :
    NoThrow remaining s := by
  obtain ⟨s1, hgrab, hgrown1, hlook1⟩ := grabIfNeeded_returns (i := s.pos) (.inl hs)
  have hpos := hs.trans hgrown1.buffer.length_le
  unfold NoThrow remaining
  rw [Prog.safe_get_bind, Prog.safe_bind_of_ok hgrab]
  refine (jumpToEnd_safe (s := s1) (by rw [hgrown1.pos]; exact hlook1)).bind ?_ ?_
  · rintro _ s2 ⟨_, ⟨⟩, -, -, hbuf⟩
    rw [Prog.safe_get_bind]
    exact noThrow_substr (hpos.trans hbuf) _
  · rintro _ _ ⟨_, ⟨⟩, -⟩

theorem keeps_remaining : Keeps remaining := by
  intro T s hs
  obtain ⟨s1, hgrab, hgrown1, hlook1⟩ := grabIfNeeded_returns hs.inBuffer
  unfold remaining
  rw [Prog.safe_get_bind, Prog.safe_bind_of_ok hgrab]
  refine (jumpToEnd_safe (s := s1) (by rw [hgrown1.pos]; exact hlook1)).bind ?_ ?_
  · rintro _ s2 ⟨_, ⟨⟩, htext, hlook, -⟩
    rw [Prog.safe_get_bind]
    refine keeps_ofExcept _ T s2 ⟨?_, Looked.inBuffer hlook⟩
    rw [htext, hgrown1.text, hs.text]
  · rintro _ _ ⟨_, ⟨⟩, -⟩

/-- Every method keeps the stream one over its text. -/
theorem keeps_call (call : StreamCall) : Keeps (SocketStream.call call) := by
  cases call with
  | hasNext => exact keeps_hasNext.bind fun _ => keeps_pure _
  | nextWord => exact keeps_nextWord.bind fun _ => keeps_pure _
  | nextLine skipWhitespace => exact (keeps_nextLine skipWhitespace).bind fun _ => keeps_pure _
  | remaining => exact keeps_remaining.bind fun _ => keeps_pure _
  | passedBuffer => exact keeps_passedBuffer.bind fun _ => keeps_pure _

/-- Past the end of the stream `hasNext` finds nothing. -/
theorem hasNext_past {s : SocketStream} (hs : s.buffer.length < s.pos.toNat) :
    hasNext.Returns s (.ok false s) := by
  unfold hasNext
  rw [Prog.returns_get_bind, Prog.returns_bind_of_ok (grabIfNeeded_returns_past hs),
    Prog.returns_bind_of_ok (skip_returns_past isspace hs), Prog.returns_get_bind,
    Prog.returns_pure, decide_eq_false (by omega)]

/-- Where `hasNext` finds something, the cursor stands in the buffer, before and after. -/
theorem pos_le_of_hasNext {T : Bytes} {s s' : SocketStream} (hs : Over T s)
    (h : hasNext.Returns s (.ok true s')) :
    s.pos.toNat ≤ s.buffer.length ∧ s'.pos.toNat ≤ s'.buffer.length := by
  have hpos : s.pos.toNat ≤ s.buffer.length := by
    -- From a cursor past the end, `hasNext` says no.
    by_contra hpast
    cases h.unique (hasNext_past (Nat.lt_of_not_le hpast))
  refine ⟨hpos, ?_⟩
  obtain ⟨s1, hgrab, hgrown1, hlook1⟩ := grabIfNeeded_returns hs.inBuffer
  unfold hasNext at h
  rw [Prog.returns_get_bind, Prog.returns_bind_of_ok hgrab] at h
  rcases (Prog.returns_bind ..).mp h with ⟨j, s2, hskip, hrest⟩ | ⟨e, s2, hskip, hr⟩
  · obtain ⟨_, _, ⟨⟩, hgrown2, -⟩ := skip_safe isspace hlook1 _ hskip
    rw [Prog.returns_get_bind, Prog.returns_pure] at hrest
    obtain ⟨-, rfl⟩ := Outcome.ok.inj hrest
    have hgrown := hgrown1.trans hgrown2
    rw [hgrown.pos]
    exact hpos.trans hgrown.buffer.length_le
  · cases hr

/-- The methods that read something on do not throw. -/
structure ReadsOn (s : SocketStream) : Prop where
  nextWord : NoThrow nextWord s
  nextLine : ∀ skipWhitespace, NoThrow (nextLine skipWhitespace) s
  remaining : NoThrow remaining s

/-- Within the buffer no method throws. -/
theorem readsOn_of_pos_le {s : SocketStream} (hs : s.pos.toNat ≤ s.buffer.length) : ReadsOn s :=
  ⟨nextWord_noThrow hs, fun skipWhitespace => nextLine_noThrow skipWhitespace hs,
    remaining_noThrow hs⟩

/-- **Where `hasNext` answers `true`**, in a state that any calls have led to, the methods do not
    throw, before that call of `hasNext` or behind it. -/
theorem reads_of_hasNext {rs : List RecvResult} {s s' : SocketStream}
    (hs : Relation.ReflTransGen (Calls SocketStream.call) (ofSocket rs) s)
    (h : hasNext.Returns s (.ok true s')) : ReadsOn s ∧ ReadsOn s' := by
  have hover : Over (delivered rs) s :=
    invariant_of_calls (fun call s o hs ho => keeps_call call _ s hs o ho) hs (over_ofSocket rs)
  obtain ⟨hpos, hpos'⟩ := pos_le_of_hasNext hover h
  exact ⟨readsOn_of_pos_le hpos, readsOn_of_pos_le hpos'⟩

end Evaluation
