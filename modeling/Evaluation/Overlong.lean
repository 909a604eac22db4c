import Evaluation.Lib.Correct
import Evaluation.Parser

namespace Evaluation

open Lib SocketStream

/-!
# Streams that are too long for the cursor

The cursor of a `SocketStream` is an `unsigned int`, the buffer has no bound.  Whatever the
length of the stream, the methods keep the text and leave the cursor within the buffer or behind
the end of the stream (`Over`); so when `hasNext` finds nothing, or `remaining` returns, a cursor
of 32 bits has reached the end of the text.

* `parseRequest_short` — a stream on which `parseRequest` returns a request is shorter than 2³²
  bytes, and so is the body of the request.
-/

/-- The stream is one over the text `T`, with its cursor in the buffer unless all has arrived. -/
structure Over (T : Bytes) (s : SocketStream) : Prop where
  text : s.text = T
  inBuffer : s.pos.toNat ≤ s.buffer.length ∨ s.ahead = []

/-- A stream that has read nothing yet. -/
theorem over_ofSocket (rs : List RecvResult) : Over (delivered rs) (ofSocket rs) :=
  ⟨rfl, .inl (Nat.zero_le _)⟩

/-- Nothing more comes when nothing was to come. -/
theorem Grown.ahead {s s' : SocketStream} (h : s.Grown s') (hs : s.ahead = []) :
    s'.ahead = [] := by
  have hlen := congrArg List.length h.text
  have hle := h.buffer.length_le
  rw [text_eq_buffer hs, SocketStream.text, List.length_append] at hlen
  exact List.length_eq_zero_iff.mp (by omega)

/-- The bytes still to come do not change when the buffer grows. -/
theorem Grown.over {T : Bytes} {s s' : SocketStream} (h : s.Grown s') (hs : Over T s) :
    Over T s' := by
  refine ⟨h.text.trans hs.text, ?_⟩
  rcases hs.inBuffer with hle | hnil
  · left
    rw [h.pos]
    exact hle.trans h.buffer.length_le
  · exact .inr (Grown.ahead h hnil)

/-- A position that was looked at stays so. -/
theorem Looked.inBuffer {s : SocketStream} {i : UInt32} (h : s.Looked i) :
    i.toNat ≤ s.buffer.length ∨ s.ahead = [] := h.imp_left Nat.le_of_lt

/-- The cursor at a position that was looked at. -/
theorem over_setPos {T : Bytes} {s : SocketStream} {i : UInt32} (hs : s.text = T)
    (hi : s.Looked i) : Over T { s with pos := i } := ⟨hs, Looked.inBuffer hi⟩

/-- At or past the end of the buffer there is nothing more to come, and the text fits the
    cursor. -/
theorem short_of_looked {T : Bytes} {s : SocketStream} {i : UInt32} (hs : s.text = T)
    (hi : s.Looked i) (hge : s.buffer.length ≤ i.toNat) : T.length < 2 ^ 32 := by
  have hnil : s.ahead = [] := hi.resolve_left (by omega)
  rw [← hs, text_eq_buffer hnil]
  exact lt_of_le_of_lt hge i.toNat_lt

/-! ### The methods -/

/-- `i + 1` may wrap, but never passes the next position. -/
theorem toNat_succ_le (i : UInt32) : (i + 1).toNat ≤ i.toNat + 1 := by
  rw [UInt32.toNat_add, UInt32.toNat_one]
  exact Nat.mod_le _ _

/-- A scan that ends stands where its test fails or the buffer does, on a text of any length. -/
theorem skip_safe (p : UInt8 → Bool) {s : SocketStream} {i : UInt32} (hi : s.Looked i) :
    (skip p i).Safe s fun o => ∃ j s', o = .ok j s' ∧ s.Grown s' ∧ s'.Looked j ∧
      ¬ (j.toNat < s'.buffer.length ∧ p (s'.buffer.getD j.toNat 0) = true) := by
  refine Prog.safe_loop (fun i s' => s.Grown s' ∧ s'.Looked i) ?_ ⟨Grown.refl s, hi⟩
  rintro i s1 ⟨hgrown, hlook⟩
  intro o hround
  by_cases hmore : i.toNat < s1.buffer.length ∧ p (s1.buffer.getD i.toNat 0) = true
  · -- A round that goes on looks at the next position.
    have hle := toNat_succ_le i
    obtain ⟨s2, hgrab, hgrown', hlook'⟩ :=
      grabIfNeeded_returns (s := s1) (i := i + 1) (.inl (by omega))
    rw [hround.unique (skipRound_next hmore.1 hmore.2 hgrab)]
    exact ⟨hgrown.trans hgrown', hlook'⟩
  · rw [hround.unique (skipRound_done hmore)]
    exact ⟨i, s1, rfl, hgrown, hlook, hmore⟩

/-- The look-ahead keeps the stream; when it finds nothing, the text fits the cursor. -/
theorem hasNext_safe {T : Bytes} {s : SocketStream} (hs : Over T s) :
    hasNext.Safe s fun o => ∃ more s', o = .ok more s' ∧ Over T s' ∧
      (more = false → T.length < 2 ^ 32) := by
  obtain ⟨s1, hgrab, hgrown1, hlook1⟩ := grabIfNeeded_returns hs.inBuffer
  unfold hasNext
  rw [Prog.safe_get_bind, Prog.safe_bind_of_ok hgrab]
  refine (skip_safe isspace hlook1).bind ?_ ?_
  · rintro j s2 ⟨_, _, ⟨⟩, hgrown2, hlook2, -⟩
    have hover := Grown.over (hgrown1.trans hgrown2) hs
    rw [Prog.safe_get_bind, Prog.safe_pure]
    refine ⟨_, _, rfl, hover, ?_⟩
    intro hmore
    exact short_of_looked hover.text hlook2 (Nat.le_of_not_lt (of_decide_eq_false hmore))
  · rintro _ _ ⟨_, _, ⟨⟩, _⟩

/-- The method keeps the stream one over its text. -/
def Keeps {α : Type} (x : StreamM α) : Prop :=
  ∀ T s, Over T s → x.Safe s fun o => Over T o.state

theorem Keeps.bind {α β : Type} {x : StreamM α} {f : α → StreamM β} (hx : Keeps x)
    (hf : ∀ a, Keeps (f a)) : Keeps (x >>= f) := by
  intro T s hs
  refine (hx T s hs).bind ?_ ?_
  · exact fun a s' hs' => hf a T s' hs'
  · exact fun e s' hs' => hs'

/-- A branch keeps the stream over its text if both sides do. -/
theorem Keeps.ite {α : Type} {c : Prop} [Decidable c] {x y : StreamM α} (hx : Keeps x)
    (hy : Keeps y) : Keeps (if c then x else y) := by
  split
  · exact hx
  · exact hy

theorem keeps_pure {α : Type} (a : α) : Keeps (pure a : StreamM α) :=
  fun _ _ hs => (Prog.safe_pure ..).mpr hs

theorem keeps_ofExcept {α : Type} (x : Except Exn α) : Keeps (ofExcept x) := by
  intro T s hs o ho
  rw [returns_ofExcept] at ho
  cases x <;> exact ho ▸ hs

theorem keeps_hasNext : Keeps hasNext := by
  intro T s hs
  refine (hasNext_safe hs).mono ?_
  rintro _ ⟨more, s', rfl, hover, -⟩
  exact hover

theorem keeps_passedBuffer : Keeps passedBuffer := by
  intro T s hs
  unfold passedBuffer
  rw [Prog.safe_get_bind]
  exact keeps_ofExcept _ T s hs

theorem keeps_nextWord : Keeps nextWord := by
  intro T s hs
  obtain ⟨s1, hgrab, hgrown1, hlook1⟩ := grabIfNeeded_returns hs.inBuffer
  unfold nextWord
  rw [Prog.safe_get_bind, Prog.safe_bind_of_ok hgrab]
  refine (skip_safe isspace hlook1).bind ?_ ?_
  · rintro i s2 ⟨_, _, ⟨⟩, hgrown2, hlook2, -⟩
    refine (skip_safe _ hlook2).bind ?_ ?_
    · rintro j s3 ⟨_, _, ⟨⟩, hgrown3, hlook3, -⟩
      have hover := Grown.over ((hgrown1.trans hgrown2).trans hgrown3) hs
      rw [Prog.safe_modify_bind, Prog.safe_get_bind]
      exact keeps_ofExcept _ T _ (over_setPos hover.text hlook3)
    · rintro _ _ ⟨_, _, ⟨⟩, _⟩
  · rintro _ _ ⟨_, _, ⟨⟩, _⟩

/-- `nextLine` steps past a newline in the buffer, or past the end of a stream of which all has
    arrived. -/
theorem keeps_nextLine (skipWhitespace : Bool) : Keeps (nextLine skipWhitespace) := by
  intro T s hs
  obtain ⟨s1, hgrab, hgrown1, hlook1⟩ := grabIfNeeded_returns hs.inBuffer
  have hstart : (lineStart skipWhitespace s.pos).Safe s1 fun o =>
      ∃ i s', o = .ok i s' ∧ s1.Grown s' ∧ s'.Looked i := by
    cases skipWhitespace with
    | true =>
      refine (skip_safe isspace hlook1).mono ?_
      rintro _ ⟨i, s2, rfl, hgrown2, hlook2, -⟩
      exact ⟨i, s2, rfl, hgrown2, hlook2⟩
    | false => exact (Prog.safe_pure ..).mpr ⟨s.pos, s1, rfl, Grown.refl s1, hlook1⟩
  unfold nextLine
  rw [Prog.safe_get_bind, Prog.safe_bind_of_ok hgrab]
  refine hstart.bind ?_ ?_
  · rintro i s2 ⟨_, _, ⟨⟩, hgrown2, hlook2⟩
    refine (skip_safe _ hlook2).bind ?_ ?_
    · rintro j s3 ⟨_, _, ⟨⟩, hgrown3, hlook3, -⟩
      have hover := Grown.over ((hgrown1.trans hgrown2).trans hgrown3) hs
      -- The cursor steps over the newline, which it has looked at.
      have hnext : Over T { s3 with pos := j + 1 } := by
        refine ⟨hover.text, ?_⟩
        have hle := toNat_succ_le j
        exact hlook3.imp_left fun hlt => by
          show (j + 1).toNat ≤ s3.buffer.length
          omega
      rw [Prog.safe_modify_bind, Prog.safe_get_bind]
      exact (keeps_ofExcept _).bind (fun line => keeps_pure _) T _ hnext
    · rintro _ _ ⟨_, _, ⟨⟩, _⟩
  · rintro _ _ ⟨_, _, ⟨⟩, _⟩

/-- When `remaining` returns, the text fits the cursor, and so does what is returned. -/
theorem remaining_safe {T : Bytes} {s : SocketStream} (hs : Over T s) :
    remaining.Safe s fun o => ∀ rest s', o = .ok rest s' →
      T.length < 2 ^ 32 ∧ rest.length < 2 ^ 32 := by
  obtain ⟨s1, hgrab, hgrown1, hlook1⟩ := grabIfNeeded_returns hs.inBuffer
  -- The loop ends only with the cursor at the end of what there is.
  have hjump : jumpToEnd.Safe s1 fun o => ∃ s', o = .ok () s' ∧ s'.text = T ∧
      s'.Looked s'.pos ∧ s'.buffer.length ≤ s'.pos.toNat := by
    refine Prog.safe_loop (fun _ s' => s'.text = T ∧ s'.Looked s'.pos) ?_
      ⟨hgrown1.text.trans hs.text, by rw [hgrown1.pos]; exact hlook1⟩
    rintro _ s2 ⟨htext, hlook⟩ o hround
    by_cases hmore : s2.pos.toNat < s2.buffer.length
    · -- The cursor jumps to the length cut to 32 bits, which is not past the end.
      have hle : (UInt32.ofNat s2.buffer.length).toNat ≤ s2.buffer.length := by
        rw [UInt32.toNat_ofNat']
        exact Nat.mod_le _ _
      obtain ⟨s3, hgrab3, hgrown3, hlook3⟩ := grabIfNeeded_returns
        (s := { s2 with pos := UInt32.ofNat s2.buffer.length })
        (i := UInt32.ofNat s2.buffer.length) (.inl hle)
      rw [hround.unique (jumpRound_next hmore hgrab3)]
      exact ⟨hgrown3.text.trans htext, by rw [hgrown3.pos]; exact hlook3⟩
    · rw [hround.unique (jumpRound_done hmore)]
      exact ⟨s2, rfl, htext, hlook, Nat.le_of_not_lt hmore⟩
  unfold remaining
  rw [Prog.safe_get_bind, Prog.safe_bind_of_ok hgrab]
  refine hjump.bind ?_ ?_
  · rintro _ s2 ⟨_, ⟨⟩, htext, hlook, hge⟩
    rw [Prog.safe_get_bind]
    rintro o ho rest s' rfl
    -- A cursor of 32 bits can be there only if the text is that short.
    have hshort := short_of_looked htext hlook hge
    refine ⟨hshort, ?_⟩
    rw [returns_ofExcept] at ho
    have hlen : s2.buffer.length ≤ T.length := htext ▸ s2.buffer_length_le
    unfold substr at ho
    split_ifs at ho with hpos
    · cases ho
      rw [List.length_take, List.length_drop]
      omega
  · rintro _ _ ⟨_, ⟨⟩, _⟩

/-! ### `parseRequest` -/

theorem keeps_parseRequestLine : Keeps parseRequestLine := by
  unfold parseRequestLine
  refine keeps_nextWord.bind fun word => keeps_nextWord.bind fun resource => ?_
  refine keeps_nextWord.bind fun version => keeps_passedBuffer.bind fun passed => ?_
  refine (keeps_pure none).ite ?_
  refine (keeps_nextLine false).bind fun line => ?_
  exact (keeps_pure none).ite ((keeps_pure none).ite (keeps_pure _))

theorem keeps_headerRound (headers : Headers) : Keeps (headerRound headers) := by
  unfold headerRound
  refine keeps_hasNext.bind fun more => Keeps.ite ?_ (keeps_pure _)
  refine (keeps_nextLine false).bind fun line => ?_
  refine (keeps_pure _).ite ((keeps_pure _).ite ?_)
  exact (keeps_ofExcept _).bind fun name => (keeps_ofExcept _).bind fun value => keeps_pure _

theorem keeps_parseHeaders : Keeps parseHeaders := by
  intro T s hs
  refine Prog.safe_loop (fun _ s' => Over T s') ?_ hs
  intro headers s1 hs1 o ho
  have hkept := keeps_headerRound headers T s1 hs1 o ho
  match o, hkept with
  | .ok (.inl _) _, hkept => exact hkept
  | .ok (.inr _) _, hkept => exact hkept
  | .error _ _, hkept => exact hkept

/-- A body is returned only of a text shorter than 2³². -/
theorem parseBody_safe {T : Bytes} {s : SocketStream} (hs : Over T s) :
    parseBody.Safe s fun o => ∀ body s', o = .ok body s' →
      T.length < 2 ^ 32 ∧ body.length < 2 ^ 32 := by
  unfold parseBody
  refine (hasNext_safe hs).bind ?_ ?_
  · rintro more s1 ⟨_, _, ⟨⟩, hover, hshort⟩
    cases more with
    | true => exact remaining_safe hover
    | false =>
      refine (Prog.safe_pure ..).mpr ?_
      rintro _ _ ⟨⟩
      exact ⟨hshort rfl, by norm_num⟩
  · rintro _ _ ⟨_, _, ⟨⟩, _⟩

/-- **A request that is returned** came in a stream shorter than 2³² bytes, and so is its body. -/
theorem parseRequest_short {rs : List RecvResult} {r : HTTPRequest} {s : SocketStream}
    (h : parseRequest.Returns (ofSocket rs) (.ok (some r) s)) :
    (delivered rs).length < 2 ^ 32 ∧ r.body.length < 2 ^ 32 := by
  -- A request is only returned behind `remaining`, which knows the length.
  have hsafe : parseRequest.Safe (ofSocket rs) fun o => ∀ r s', o = .ok (some r) s' →
      (delivered rs).length < 2 ^ 32 ∧ r.body.length < 2 ^ 32 := by
    unfold parseRequest
    refine (keeps_parseRequestLine _ _ (over_ofSocket rs)).bind ?_ ?_
    · intro line s1 hs1
      match line with
      | none =>
        refine (Prog.safe_pure ..).mpr ?_
        rintro _ _ ⟨⟩
      | some (method, resource, version) =>
        refine (keeps_parseHeaders _ s1 hs1).bind ?_ ?_
        · intro headers s2 hs2
          refine (parseBody_safe hs2).bind ?_ ?_
          · intro body s3 hbody
            refine (Prog.safe_pure ..).mpr ?_
            rintro _ _ ⟨⟩
            exact hbody body s3 rfl
          · rintro _ _ _ _ _ ⟨⟩
        · rintro _ _ _ _ _ ⟨⟩
    · rintro _ _ _ _ _ ⟨⟩
  exact hsafe _ h r s rfl

end Evaluation
