import Evaluation.Parser
import Evaluation.Wire

namespace Evaluation

open Lib SocketStream

/-!
# Until the client is silent

A stream calls `::recv` when it runs out of bytes, and an empty one is the last: `m_timed_out` is
never cleared.  So a client that has fallen silent is waited for once.  On the other hand a request
is not taken before that: where it ends is not known any sooner.

* `ReadUpTo` — what some calls of `::recv` have given, and that none came behind an empty one;
* `Attends` — a stream that has read so, with its cursor on what has been read;
* `parseRequest_attends` — `parseRequest` reads so, and up to an empty `::recv` if it returns a
  request;
* `run_asksOnce` — so `HTTPWorker::run` waits for a silent client once, and calls no handler before.
-/

/-- Some calls of `::recv`: the bytes that they have given, whether the last has given none, and
    what the next ones will give.  Behind one that has given none there is no other. -/
inductive ReadUpTo (rs : List RecvResult) : Bytes → Bool → List RecvResult → Prop where
  | start : ReadUpTo rs [] false rs
  | chunk {read chunk : Bytes} {next : List RecvResult}
    (h : ReadUpTo rs read false (some chunk :: next)) (hchunk : chunk ≠ []) :
    ReadUpTo rs (read ++ chunk) false next
  | silence {read : Bytes} {next : List RecvResult} (h : ReadUpTo rs read false next)
    (hempty : (recv next).1 = []) : ReadUpTo rs read true (recv next).2

/-- The stream has read so. -/
def Reading (rs : List RecvResult) (s : SocketStream) : Prop :=
  ReadUpTo rs s.buffer s.timedOut s.socket

/-- The byte at the position has been read, or there is none. -/
def SocketStream.Asked (s : SocketStream) (i : UInt32) : Prop :=
  i.toNat < s.buffer.length ∨ s.timedOut = true

/-- The stream has read so, and its cursor is not past what has been read. -/
structure Attends (rs : List RecvResult) (s : SocketStream) : Prop where
  reading : Reading rs s
  cursor : s.pos.toNat ≤ s.buffer.length ∨ s.timedOut = true

/-- What a method of the stream keeps, and what is left when it throws. -/
def Attentive {α : Type} (rs : List RecvResult) (x : StreamM α) : Prop :=
  Prog.Triple (Attends rs) x (fun _ => Attends rs) fun _ => Reading rs

/-- What has been read is what is delivered before the first empty `::recv`. -/
theorem ReadUpTo.delivered {rs next : List RecvResult} {read : Bytes} {silent : Bool}
    (h : ReadUpTo rs read silent next) :
    delivered rs = read ++ if silent then [] else delivered next := by
  induction h with
  | start => rfl
  | @chunk read chunk next _ hchunk ih =>
    obtain ⟨c, cs, rfl⟩ := List.exists_cons_of_ne_nil hchunk
    rw [ih, List.append_assoc]
    rfl
  | @silence read next _ hempty ih =>
    rw [ih, recv_delivered next, hempty]
    rfl

section

variable {rs : List RecvResult}

/-- A stream that has read nothing yet. -/
theorem attends_ofSocket (rs : List RecvResult) : Attends rs (ofSocket rs) :=
  ⟨.start, .inl (Nat.zero_le _)⟩

/-! ### Growing the buffer -/

/-- One more call of `::recv`. -/
theorem reading_recv {s : SocketStream} (h : Reading rs s) (htime : s.timedOut = false) :
    ReadUpTo rs (s.buffer ++ (recv s.socket).1) (s.timedOut || (recv s.socket).1.isEmpty)
      (recv s.socket).2 := by
  unfold Reading at h
  rw [htime] at h ⊢
  by_cases hempty : (recv s.socket).1 = []
  · rw [hempty, List.append_nil]
    exact h.silence hempty
  · have hsocket : s.socket = some (recv s.socket).1 :: (recv s.socket).2 := by
      match hs : s.socket with
      | [] => exact absurd (by rw [hs]; rfl) hempty
      | none :: _ => exact absurd (by rw [hs]; rfl) hempty
      | some _ :: _ => rfl
    have hisEmpty : (recv s.socket).1.isEmpty = false := by simpa using hempty
    rw [hisEmpty]
    rw [hsocket] at h
    exact h.chunk hempty

/-- `grab_if_needed` calls `::recv` only while nothing has timed out. -/
theorem triple_grabIfNeeded (i k : UInt32) :
    Prog.Triple
      (fun s => Attends rs s ∧ s.pos = k ∧ (i.toNat ≤ s.buffer.length ∨ s.timedOut = true))
      (grabIfNeeded i) (fun _ s => Attends rs s ∧ s.pos = k ∧ s.Asked i)
      fun _ => Reading rs := by
  rintro s ⟨hs, hk, hi⟩
  unfold grabIfNeeded
  rw [Prog.safe_get_bind]
  -- The index is at the end and the client has not gone silent: one more `recv`.
  by_cases hgrab : i.toNat = s.buffer.length ∧ s.timedOut = false
  · rw [if_pos hgrab]
    refine (Prog.safe_ofFun ..).mpr ⟨⟨reading_recv hs.reading hgrab.2, ?_⟩, hk, ?_⟩
    · refine .inl ((hs.cursor.resolve_right ?_).trans ?_)
      · rw [hgrab.2]
        exact Bool.false_ne_true
      · show _ ≤ (s.buffer ++ _).length
        rw [List.length_append]
        omega
    · show i.toNat < (s.buffer ++ _).length ∨ (s.timedOut || _) = true
      -- It brought nothing, so the client is silent; or the index is within the buffer now.
      by_cases hempty : (recv s.socket).1 = []
      · right
        rw [hempty]
        exact Bool.or_true _
      · left
        have hpos := List.length_pos_of_ne_nil hempty
        rw [List.length_append, hgrab.1]
        omega
  · rw [if_neg hgrab]
    refine (Prog.safe_pure ..).mpr ⟨hs, hk, ?_⟩
    by_cases htime : s.timedOut = true
    · exact .inr htime
    · rw [Bool.not_eq_true] at htime
      have hle := hi.resolve_right (by simp [htime])
      exact .inl (lt_of_le_of_ne hle fun heq => hgrab ⟨heq, htime⟩)

/-- The scanning loop stops at a position that has been asked for. -/
theorem triple_skip (p : UInt8 → Bool) (i : UInt32) :
    Prog.Triple (fun s => Attends rs s ∧ s.Asked i) (skip p i)
      (fun j s => Attends rs s ∧ s.Asked j) fun _ => Reading rs := by
  refine Prog.triple_loop (I := fun i s => Attends rs s ∧ s.Asked i) (fun i => ?_) i
  rintro s ⟨hs, hi⟩
  unfold skipRound
  rw [Prog.safe_get_bind]
  split
  · rename_i hmore
    have hle := toNat_succ_le i
    refine ((triple_grabIfNeeded (i + 1) s.pos) s ⟨hs, rfl, .inl (by omega)⟩).bind ?_ ?_
    · rintro _ s' ⟨hs', -, hi'⟩
      exact (Prog.safe_pure ..).mpr ⟨hs', hi'⟩
    · exact fun _ _ he => he
  · exact (Prog.safe_pure ..).mpr ⟨hs, hi⟩

/-- Where every method starts: the byte at the cursor is asked for. -/
theorem triple_atCursor {α : Type} {f : UInt32 → StreamM α} {J : α → SocketStream → Prop}
    (h : ∀ i, Prog.Triple (fun s => Attends rs s ∧ s.Asked i) (f i) J fun _ => Reading rs) :
    Prog.Triple (Attends rs) (Prog.get >>= fun s => grabIfNeeded s.pos >>= fun _ => f s.pos) J
      fun _ => Reading rs := by
  intro s hs
  rw [Prog.safe_get_bind]
  refine ((triple_grabIfNeeded s.pos s.pos) s ⟨hs, rfl, hs.cursor⟩).bind ?_ ?_
  · rintro _ s' ⟨hs', -, hi⟩
    exact h s.pos s' ⟨hs', hi⟩
  · exact fun _ _ he => he

/-! ### The methods -/

theorem attentive_ofExcept {α : Type} (x : Except Exn α) : Attentive rs (ofExcept x) := by
  intro s hs o ho
  rw [returns_ofExcept] at ho
  subst ho
  cases x with
  | ok a => exact hs
  | error e => exact hs.reading

/-- The position may move to where has been asked. -/
theorem Attends.setPos {s : SocketStream} {i : UInt32} (hs : Attends rs s) (hi : s.Asked i) :
    Attends rs { s with pos := i } := ⟨hs.reading, hi.imp_left Nat.le_of_lt⟩

/-- The look-ahead; when it finds nothing, the client is silent. -/
theorem triple_hasNext :
    Prog.Triple (Attends rs) hasNext
      (fun more s => Attends rs s ∧ (more = false → s.timedOut = true))
      fun _ => Reading rs := by
  refine triple_atCursor fun i => (triple_skip isspace i).bind fun j => ?_
  rintro s ⟨hs, hj⟩
  rw [Prog.safe_get_bind]
  refine (Prog.safe_pure ..).mpr ⟨hs, fun hmore => hj.resolve_left ?_⟩
  exact of_decide_eq_false hmore

/-- `nextWord` asks only as long as it is given something. -/
theorem attentive_nextWord : Attentive rs nextWord := by
  refine triple_atCursor fun i => (triple_skip isspace i).bind fun start => ?_
  refine (triple_skip _ start).bind fun stop => ?_
  rintro s ⟨hs, hstop⟩
  rw [Prog.safe_modify_bind, Prog.safe_get_bind]
  exact attentive_ofExcept _ _ (hs.setPos hstop)

theorem attentive_passedBuffer : Attentive rs passedBuffer := by
  intro s hs
  unfold passedBuffer
  rw [Prog.safe_get_bind]
  exact attentive_ofExcept _ s hs

theorem attentive_nextLine (skipWhitespace : Bool) : Attentive rs (nextLine skipWhitespace) := by
  have hstart : ∀ i, Prog.Triple (fun s => Attends rs s ∧ s.Asked i) (lineStart skipWhitespace i)
      (fun j s => Attends rs s ∧ s.Asked j) fun _ => Reading rs := by
    intro i
    cases skipWhitespace with
    | true => exact triple_skip isspace i
    | false => exact Prog.triple_pure (J := fun j s => Attends rs s ∧ s.Asked j) i
  refine triple_atCursor fun i => (hstart i).bind fun start => ?_
  refine (triple_skip _ start).bind fun stop => ?_
  rintro s ⟨hs, hstop⟩
  rw [Prog.safe_modify_bind, Prog.safe_get_bind]
  -- The cursor is put behind the newline, which is at most the end of what was asked for.
  have hnext : Attends rs { s with pos := stop + 1 } := by
    refine ⟨hs.reading, hstop.imp_left fun hlt => ?_⟩
    have hle := toNat_succ_le stop
    show (stop + 1).toNat ≤ s.buffer.length
    omega
  exact ((attentive_ofExcept _).bind
    fun line => Prog.triple_pure (J := fun _ => Attends rs) _) _ hnext

/-- `remaining` returns when the client is silent. -/
theorem triple_remaining :
    Prog.Triple (Attends rs) remaining (fun _ s => Reading rs s ∧ s.timedOut = true)
      fun _ => Reading rs := by
  -- The cursor jumps to the end of the buffer, as long as there are more bytes to come.
  have hjump : Prog.Triple (fun s => Attends rs s ∧ s.Asked s.pos) jumpToEnd
      (fun _ s => Attends rs s ∧ s.timedOut = true) fun _ => Reading rs := by
    refine Prog.triple_loop (I := fun _ s => Attends rs s ∧ s.Asked s.pos) (fun _ => ?_) ()
    rintro s ⟨hs, hasked⟩
    unfold jumpRound
    rw [Prog.safe_get_bind]
    split
    · have hle : (UInt32.ofNat s.buffer.length).toNat ≤ s.buffer.length := by
        rw [UInt32.toNat_ofNat']
        exact Nat.mod_le _ _
      have hmoved : Attends rs { s with pos := UInt32.ofNat s.buffer.length } :=
        ⟨hs.reading, .inl hle⟩
      rw [Prog.safe_modify_bind]
      refine ((triple_grabIfNeeded _ _) _ ⟨hmoved, rfl, .inl hle⟩).bind ?_ ?_
      · rintro _ s' ⟨hs', hpos, hi⟩
        exact (Prog.safe_pure ..).mpr ⟨hs', hpos ▸ hi⟩
      · exact fun _ _ he => he
    · rename_i hend
      exact (Prog.safe_pure ..).mpr ⟨hs, hasked.resolve_left hend⟩
  intro s hs
  unfold remaining
  rw [Prog.safe_get_bind]
  refine ((triple_grabIfNeeded s.pos s.pos) s ⟨hs, rfl, hs.cursor⟩).bind ?_ ?_
  · rintro _ s1 ⟨hs1, hpos, hi⟩
    refine (hjump s1 ⟨hs1, hpos ▸ hi⟩).bind ?_ ?_
    · rintro _ s2 ⟨hs2, htime⟩
      rw [Prog.safe_get_bind]
      intro o ho
      rw [returns_ofExcept] at ho
      subst ho
      split
      · exact ⟨hs2.reading, htime⟩
      · exact hs2.reading
    · exact fun _ _ he => he
  · exact fun _ _ he => he

/-! ### The parsers -/

theorem attentive_ite {α : Type} {c : Prop} [Decidable c] {x y : StreamM α} (hx : Attentive rs x)
    (hy : Attentive rs y) : Attentive rs (if c then x else y) := by
  split
  · exact hx
  · exact hy

theorem attentive_pure {α : Type} (a : α) : Attentive rs (pure a : StreamM α) :=
  Prog.triple_pure (J := fun _ => Attends rs) a

theorem attentive_parseRequestLine : Attentive rs parseRequestLine := by
  refine attentive_nextWord.bind fun word => attentive_nextWord.bind fun resource => ?_
  refine attentive_nextWord.bind fun version => attentive_passedBuffer.bind fun passed => ?_
  refine attentive_ite (attentive_pure none) ((attentive_nextLine false).bind fun line => ?_)
  exact attentive_ite (attentive_pure none) (attentive_ite (attentive_pure none) (attentive_pure _))

theorem attentive_headerRound (headers : Headers) : Attentive rs (headerRound headers) := by
  have hfield : ∀ line : Bytes, Attentive rs (do
      let name ← SocketStream.ofExcept (substr line 0 (find line colon))
      let value ← SocketStream.ofExcept
        (substr line (skipBlanks line (find line colon + 1)) line.length)
      pure (.inl (headers.insert (lowerName name) value)) : StreamM (Headers ⊕ Headers)) := by
    intro line
    exact (attentive_ofExcept _).bind fun name => (attentive_ofExcept _).bind fun value =>
      attentive_pure _
  refine (triple_hasNext.mono fun more s hs => hs.1).bind fun more => ?_
  refine attentive_ite ((attentive_nextLine false).bind fun line => ?_) (attentive_pure _)
  exact attentive_ite (attentive_pure _) (attentive_ite (attentive_pure _) (hfield line))

theorem attentive_parseHeaders : Attentive rs parseHeaders := by
  refine Prog.triple_loop (I := fun _ => Attends rs) (fun headers => ?_) ∅
  refine (attentive_headerRound headers).mono ?_
  rintro (_ | _) s hs <;> exact hs

/-- The body is taken when the client is silent. -/
theorem triple_parseBody :
    Prog.Triple (Attends rs) parseBody (fun _ s => Reading rs s ∧ s.timedOut = true)
      fun _ => Reading rs := by
  refine triple_hasNext.bind fun more => ?_
  rintro s ⟨hs, hmore⟩
  cases more with
  | true => exact triple_remaining s hs
  | false => exact (Prog.safe_pure ..).mpr ⟨hs.reading, hmore rfl⟩

end

/-- **`parseRequest`** calls `::recv` no more when one has been empty, and returns a request only
    when one has. -/
theorem parseRequest_attends {rs : List RecvResult}
    {o : Outcome Exn SocketStream (Option HTTPRequest)} (h : parseRequest.Returns (ofSocket rs) o) :
    Reading rs o.state ∧ ∀ request s, o = .ok (some request) s →
      s.timedOut = true ∧ s.buffer = delivered rs := by
  -- Whoever gets as far as the body has waited for the client to go silent.
  have htriple : Prog.Triple (Attends rs) parseRequest
      (fun out s => Reading rs s ∧ (out.isSome → s.timedOut = true)) fun _ => Reading rs := by
    refine attentive_parseRequestLine.bind fun line => ?_
    cases line with
    | none => exact fun s hs => (Prog.safe_pure ..).mpr ⟨hs.reading, nofun⟩
    | some line =>
      refine attentive_parseHeaders.bind fun headers => triple_parseBody.bind fun body => ?_
      exact fun s hs => (Prog.safe_pure ..).mpr ⟨hs.1, fun _ => hs.2⟩
  have hwithin := htriple _ (attends_ofSocket rs) _ h
  cases o with
  | error e s => exact ⟨hwithin, nofun⟩
  | ok out s =>
    refine ⟨hwithin.1, ?_⟩
    rintro request _ ⟨⟩
    have htime := hwithin.2 rfl
    have hdelivered := hwithin.1.delivered
    rw [htime] at hdelivered
    exact ⟨htime, (hdelivered.trans (List.append_nil _)).symm⟩

/-! ### The worker -/

namespace HTTPWorker

variable {lib : Library} {worker : HTTPWorker} {fd : Fd} {rs : List RecvResult}

/-- What the next calls of `::recv` on the descriptor will give. -/
def Leaves (fd : Fd) (rs : List RecvResult) (w : World) : Prop :=
  ∃ d, w.descriptors fd = some d ∧ d.peer.recvs = rs

/-- Sending leaves what `::recv` would still give. -/
theorem leaves_send (hfd : worker.socket.fd = some fd) (response : Except Exn HTTPResponse) :
    Leads (Leaves fd rs) (worker.send lib response) fun _ => Leaves fd rs := by
  refine (leads_orUncaught response).bind fun response => (leads_record _).bind fun _ => ?_
  intro p hp
  refine (Prog.safe_zoom ..).mpr ((TCPSocket.send_safe hfd _ true p.world).mono ?_)
  rintro (⟨sent, w'⟩ | ⟨halt, w'⟩) ho
  · have hsent : World.Sent fd p.world w' := ho
    obtain ⟨d, hd, hrecvs⟩ := hp
    obtain ⟨d', hd', hover⟩ := hsent.opened d hd
    exact ⟨d', hd', by rw [hover.same, ← hrecvs]⟩
  · rintro rfl
    obtain ⟨-, ⟨⟨⟩, -⟩ | ⟨⟨⟩, -⟩⟩ := ho

/-- Answering leaves what `::recv` would still give. -/
theorem leaves_reply (hfd : worker.socket.fd = some fd) (response : Except Exn HTTPResponse) :
    Leads (Leaves fd rs) (worker.reply lib response) fun _ => Leaves fd rs :=
  (leaves_send hfd response).bind fun _ => leads_pure ()

/-- Sending on a report leaves what `::recv` would still give. -/
theorem leaves_forward (link : Bytes) :
    Leads (Leaves fd rs) (forward lib link) fun _ => Leaves fd rs := by
  rintro p ⟨d, hd, hrecvs⟩
  refine (forward_stays p.world link p fun _ _ h => h).mono ?_
  rintro (⟨u, p'⟩ | ⟨halt, p'⟩) ho
  · exact ⟨d, ho fd d hd, hrecvs⟩
  · exact ho

/-- An answer does not read. -/
theorem leaves_answer (hfd : worker.socket.fd = some fd) (out : Option HTTPRequest) :
    Leads (Leaves fd rs) (worker.answer lib out) fun _ => Leaves fd rs := by
  unfold answer
  cases checkRequest lib.json out with
  | error response => exact leaves_reply hfd response
  | ok request =>
    refine (leads_record _).bind fun _ => ?_
    -- A fixed response, one with the next id, or a report to be forwarded.
    obtain hcall | ⟨-, hcall⟩ | ⟨link, -, -, hcall⟩ :=
      call_cases lib worker request (handlerMapper request.resource)
    · rw [hcall 0]
      exact leaves_reply hfd _
    · rw [hcall]
      have hnext : Leads (Leaves fd rs) nextQueryID fun _ => Leaves fd rs :=
        Prog.triple_ofFun fun _ hp => hp
      exact hnext.bind fun id => leaves_reply hfd _
    · rw [hcall]
      refine (leaves_send hfd _).bind fun _ => ?_
      split
      · exact leads_pure ()
      · exact leaves_forward link

/-- An answer adds to the trace. -/
theorem grows_answer (out : Option HTTPRequest) : traceGrows.Held (worker.answer lib out) := by
  unfold answer
  cases checkRequest lib.json out with
  | error response => exact grows_reply lib worker response
  | ok request => exact (grows_record _).bind fun _ => grows_call lib worker request _

/-- What a worker reads is what its stream reads. -/
theorem leaves_run {d : Descriptor} {p p' : Process} {worker' : HTTPWorker}
    (hfd : worker.socket.fd = some fd) (hd : p.world.descriptors fd = some d)
    (h : (worker.run lib).Returns p (.ok worker' p')) :
    ∃ request s, parseRequest.Returns (ofSocket d.peer.recvs) (.ok request s) ∧
      Leaves fd s.socket p'.world ∧ p.trace <+: p'.trace ∧ (request = none →
        ∃ response, p'.trace = p.trace ++ [.handed response]) := by
  obtain ⟨s, ⟨request, hparse, hrest⟩ | ⟨e, ⟨⟩⟩⟩ := run_cases h
  obtain ⟨u, q, hanswer, hpure⟩ | ⟨_, _, -, ⟨⟩⟩ := (Prog.returns_bind ..).mp hrest
  cases (Prog.returns_pure ..).mp hpure
  have hrecvs : worker.socket.recvs p.world = d.peer.recvs := by
    unfold TCPSocket.recvs
    rw [hfd, Option.bind_some, hd]
  rw [hrecvs] at hparse
  let set := worker.socket.setTimeout 10 .SO_RCVTIMEO p.world
  have hfd' : set.2.1.fd = some fd := (worker.socket.setTimeout_fd ..).trans hfd
  have hleft : Leaves fd s.socket (set.2.1.setRecvs s.socket set.2.2) := by
    obtain ⟨d', hd', -⟩ := (unsent_setTimeout hfd 10 .SO_RCVTIMEO p.world).own d hd
    refine ⟨{ d' with peer := { d'.peer with recvs := s.socket } }, ?_, rfl⟩
    unfold TCPSocket.setRecvs
    rw [hfd']
    dsimp only
    rw [hd']
    exact Function.update_self ..
  refine ⟨request, s, hparse, ?_, (grows_answer request _).of_returns hanswer, ?_⟩
  · exact (leaves_answer (by exact hfd') request).ok hleft hanswer
  · rintro rfl
    -- There is nothing to dispatch, so the worker replies.
    unfold answer checkRequest at hanswer
    cases hresponse : HTTPResponse.makeErrorResponse lib.json 400 (bytes "Bad Request")
        (bytes "Error parsing request.") with
    | ok response =>
      rw [hresponse] at hanswer
      exact ⟨response, (reply_handed lib ⟨set.2.1⟩ response _).of_returns hanswer⟩
    | error e =>
      rw [hresponse] at hanswer
      have hend := (reply_uncaught lib ⟨set.2.1⟩ e _).of_returns hanswer
      cases hend

end HTTPWorker

/-- Its request comes in two parts, with a pause between them, and then it hangs up. -/
def hesitantClient : Peer :=
  ⟨[some (bytes "GET /v0/Submit"), none, some (bytes "Feedback HTTP/1.1\r\n\r\n")],
    .const .failed⟩

/-- **A worker** that returns has called `::recv` no more behind an empty one.  If it has called a
    handler one was empty, and the worker has read all that was delivered before. -/
theorem run_asksOnce {lib : Library} {worker worker' : HTTPWorker} {fd : Fd} {d : Descriptor}
    {p p' : Process} (hfd : worker.socket.fd = some fd) (hd : p.world.descriptors fd = some d)
    (h : (worker.run lib).Returns p (.ok worker' p')) :
    ∃ read silent d' events, p'.world.descriptors fd = some d' ∧ p'.trace = p.trace ++ events ∧
      ReadUpTo d.peer.recvs read silent d'.peer.recvs ∧
      ∀ handler request, .dispatched handler request ∈ events →
        silent = true ∧ read = delivered d.peer.recvs := by
  obtain ⟨request, s, hparse, ⟨d', hd', hleft⟩, ⟨events, htrace⟩, hnone⟩ :=
    HTTPWorker.leaves_run hfd hd h
  obtain ⟨hread, hsilent⟩ := parseRequest_attends hparse
  refine ⟨s.buffer, s.timedOut, d', events, hd', htrace.symm, hleft ▸ hread, ?_⟩
  intro handler request' hmem
  -- A request can only come from a client gone silent; without one nothing is dispatched.
  cases request with
  | some request => exact hsilent request s rfl
  | none =>
    obtain ⟨response, hhanded⟩ := hnone rfl
    have hevents : events = [.handed response] := List.append_cancel_left (htrace.trans hhanded)
    rw [hevents] at hmem
    cases List.mem_singleton.mp hmem

/-- The client hesitates in the middle of its request. -/
theorem run_asksOnce_hesitant : ∃ worker' p' d' read silent,
    (HTTPWorker.run Library.plain ⟨.ofFd 4⟩).Returns (acceptedFrom hesitantClient)
      (.ok worker' p') ∧ p'.world.descriptors 4 = some d' ∧
        ReadUpTo hesitantClient.recvs read silent d'.peer.recvs := by
  have hrun : ((HTTPWorker.run Library.plain ⟨.ofFd 4⟩).run 400
      (acceptedFrom hesitantClient)).any (· matches .ok ..) = true := by decide +kernel
  obtain ⟨⟨worker', p'⟩ | _, hreturns, ⟨⟩⟩ := Prog.ends_of_run hrun
  obtain ⟨read, silent, d', events, hd', -, hread, -⟩ := @run_asksOnce Library.plain ⟨.ofFd 4⟩
    worker' 4 (.fresh 8080 hesitantClient) (acceptedFrom hesitantClient) p' rfl rfl hreturns
  exact ⟨worker', p', d', read, silent, hreturns, hd', hread⟩

end Evaluation
