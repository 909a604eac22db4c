import Evaluation.TCPSocket

namespace Evaluation

open Lib

/-!
# What is still to come

A system call uses up one of the answers to come, and may open a connection whose other end was
part of that answer.  So nothing awaits the program after a call that did not await it before,
apart from the failures on a socket that is not connected.

* `World.Pending` — a result that some `::send` to come may have;
* `World.Later` — a world after some system calls; `World.Later.next` and `World.Later.set` are
  the two things that they do;
* one lemma for each system call, and for each method of `TCPSocket`.
-/

namespace World

/-- A result of `::send` to come: on a connection that is open, with a client to be accepted, or
    with a server to be connected to. -/
def Pending (w : World) (result : SendResult) : Prop :=
  (∃ fd, TCPSocket.Awaits fd w result) ∨
  (∃ fd peer, some (fd, peer) ∈ w.answers.accept ∧ result ∈ peer.sends) ∨
  ∃ port peer, some (port, peer) ∈ w.answers.connect ∧ result ∈ peer.sends

/-- `w'` is `w` after some system calls. -/
structure Later (w w' : World) : Prop where
  poll : w'.answers.poll <:+ w.answers.poll
  accept : w'.answers.accept <:+ w.answers.accept
  pending : ∀ result, result ≠ .failed → w'.Pending result → w.Pending result

theorem Later.refl (w : World) : w.Later w :=
  ⟨List.suffix_rfl, List.suffix_rfl, fun _ _ h => h⟩

theorem Later.trans {w w' w'' : World} (h : w.Later w') (h' : w'.Later w'') : w.Later w'' :=
  ⟨h'.poll.trans h.poll, h'.accept.trans h.accept,
    fun result hne hp => h.pending result hne (h'.pending result hne hp)⟩

/-- The set of ports says nothing about what is to come. -/
theorem Later.ports (w : World) (portsInUse : Finset UInt16) :
    w.Later { w with portsInUse } := ⟨List.suffix_rfl, List.suffix_rfl, fun _ _ h => h⟩

/-- Nor does the ledger. -/
theorem Later.book {w w' : World} (h : w.Later w') (entry : Entry Fd) :
    w.Later (w'.book entry) := ⟨h.poll, h.accept, h.pending⟩

/-- Answers are used up. -/
theorem Later.next {w : World} {answers : Answers} (hpoll : answers.poll <:+ w.answers.poll)
    (haccept : answers.accept <:+ w.answers.accept)
    (hconnect : answers.connect <:+ w.answers.connect) : w.Later (w.next answers) := by
  refine ⟨hpoll, haccept, ?_⟩
  rintro result - (hopen | ⟨fd, peer, hmem, hsend⟩ | ⟨port, peer, hmem, hsend⟩)
  · exact .inl hopen
  · exact .inr (.inl ⟨fd, peer, haccept.subset hmem, hsend⟩)
  · exact .inr (.inr ⟨port, peer, hconnect.subset hmem, hsend⟩)

/-- A descriptor changes; its other end gives nothing that was not to come before. -/
theorem Later.set {w w' : World} (h : w.Later w') (fd : Fd) {d : Option Descriptor}
    (hd : ∀ d', d = some d' → ∀ result ∈ d'.peer.sends, result ≠ .failed → w.Pending result) :
    w.Later (w'.set fd d) := by
  refine ⟨h.poll, h.accept, ?_⟩
  rintro result hne (⟨fd', d', hd', hsend⟩ | hanswer)
  · by_cases hfd : fd' = fd
    · subst hfd
      rw [set_descriptors, Function.update_self] at hd'
      exact hd d' hd' result hsend hne
    · rw [set_descriptors, Function.update_of_ne hfd] at hd'
      exact h.pending result hne (.inl ⟨fd', d', hd', hsend⟩)
  · exact h.pending result hne (.inr hanswer)

/-- A descriptor that is open changes, and keeps its other end. -/
theorem Later.keep {w w' : World} (h : w.Later w') {fd : Fd} {d d' : Descriptor}
    (hd : w.descriptors fd = some d) (hpeer : d'.peer = d.peer) :
    w.Later (w'.set fd (some d')) := by
  refine h.set fd ?_
  rintro _ ⟨⟩ result hsend -
  rw [hpeer] at hsend
  exact .inl ⟨fd, d, hd, hsend⟩

/-! ### The system calls -/

/-- `::socket` gives a descriptor with nothing at its other end. -/
theorem later_socket (w : World) : w.Later w.socket.2 := by
  have hnext : w.Later (w.next { w.answers with socket := w.answers.socket.tail }) :=
    Later.next List.suffix_rfl List.suffix_rfl List.suffix_rfl
  unfold socket
  cases w.answers.socket.headD none with
  | none => exact hnext
  | some fd =>
    dsimp only
    split
    · -- Every `::send` fails on the new socket.
      refine (hnext.set fd ?_).book _
      rintro _ ⟨⟩ result ⟨i, hi⟩ hne
      exact absurd hi hne
    · exact hnext

theorem later_setReuseaddr (w : World) : w.Later w.setReuseaddr.2 :=
  Later.next List.suffix_rfl List.suffix_rfl List.suffix_rfl

theorem later_setsockopt (w : World) (fd : Fd) (option : TimeoutOption) (sec usec : ℕ) :
    w.Later (w.setsockopt fd option sec usec).2 := by
  have hnext : w.Later (w.next { w.answers with setsockopt := w.answers.setsockopt.tail }) :=
    Later.next List.suffix_rfl List.suffix_rfl List.suffix_rfl
  unfold setsockopt
  cases hd : w.descriptors fd with
  | none => exact hnext
  | some d =>
    dsimp only
    split
    · cases option with
      | SO_RCVTIMEO => exact hnext.keep hd rfl
      | SO_SNDTIMEO => exact hnext.keep hd rfl
    · exact hnext

theorem later_getsockname (w : World) (fd : Fd) : w.Later (w.getsockname fd).2 :=
  Later.next List.suffix_rfl List.suffix_rfl List.suffix_rfl

theorem later_close (w : World) (fd : Fd) : w.Later (w.close fd).2 := by
  have hnext : w.Later (w.next { w.answers with close := w.answers.close.tail }) :=
    Later.next List.suffix_rfl List.suffix_rfl List.suffix_rfl
  unfold close
  dsimp only
  split
  · refine (hnext.book _).set fd ?_
    rintro _ ⟨⟩
  · exact hnext.book _

theorem later_bind (w : World) (fd : Fd) (port : UInt16) : w.Later (w.bind fd port).2 := by
  have hnext : w.Later (w.next { w.answers with bind := w.answers.bind.tail }) :=
    Later.next List.suffix_rfl List.suffix_rfl List.suffix_rfl
  unfold bind
  cases w.answers.bind.headD none with
  | none => exact hnext
  | some free =>
    cases hd : w.descriptors fd with
    | none => exact hnext
    | some d =>
      dsimp only
      split
      · exact hnext.keep hd rfl
      · exact hnext

theorem later_listen (w : World) (fd : Fd) (backlog : ℤ) : w.Later (w.listen fd backlog).2 :=
  Later.next List.suffix_rfl List.suffix_rfl List.suffix_rfl

/-- What is pending on a client waits on its descriptor once it is accepted. -/
theorem later_accept (w : World) (fd : Fd) : w.Later (w.accept fd).2 := by
  have hnext : w.Later (w.next { w.answers with accept := w.answers.accept.tail }) :=
    Later.next List.suffix_rfl (List.tail_suffix _) List.suffix_rfl
  unfold accept
  cases hanswer : w.answers.accept.headD none with
  | none => exact hnext
  | some answer =>
    obtain ⟨fd', peer⟩ := answer
    cases w.descriptors fd with
    | none => exact hnext
    | some d =>
      dsimp only
      split
      · refine (hnext.set fd' ?_).book _
        rintro _ ⟨⟩ result hsend -
        exact .inr (.inl ⟨fd', peer, mem_of_headD_none hanswer, hsend⟩)
      · exact hnext

/-- What Link Analysis has pending waits on the connection to it. -/
theorem later_connect (w : World) (fd : Fd) (ip : Bytes) (port : UInt16) :
    w.Later (w.connect fd ip port).2 := by
  have hnext : w.Later (w.next { w.answers with connect := w.answers.connect.tail }) :=
    Later.next List.suffix_rfl List.suffix_rfl (List.tail_suffix _)
  unfold connect
  cases hanswer : w.answers.connect.headD none with
  | none => exact hnext
  | some answer =>
    obtain ⟨free, peer⟩ := answer
    cases w.descriptors fd with
    | none => exact hnext
    | some d =>
      refine hnext.set fd ?_
      rintro _ ⟨⟩ result hsend -
      exact .inr (.inr ⟨free, peer, mem_of_headD_none hanswer, hsend⟩)

theorem later_getaddrinfo (w : World) (domain : Bytes) (port : UInt16) :
    w.Later (w.getaddrinfo domain port).2 :=
  Later.next List.suffix_rfl List.suffix_rfl List.suffix_rfl

theorem later_poll (w : World) : w.Later w.poll.2 :=
  Later.next (List.tail_suffix _) List.suffix_rfl List.suffix_rfl

/-- Sending uses up what is pending for its descriptor. -/
theorem Sent.later {fd : Fd} {w w' : World} (h : Sent fd w w') : w.Later w' := by
  refine ⟨h.answers ▸ List.suffix_rfl, h.answers ▸ List.suffix_rfl, ?_⟩
  rintro result - (⟨fd', hawait⟩ | hanswer)
  · by_cases hfd : fd' = fd
    · subst hfd
      exact .inl ⟨fd', hawait.of_sent h⟩
    · obtain ⟨d, hd, hsend⟩ := hawait
      rw [h.other fd' hfd] at hd
      exact .inl ⟨fd', d, hd, hsend⟩
  · rw [h.answers] at hanswer
    exact .inr hanswer

end World

/-! ### The methods of `TCPSocket` -/

namespace TCPSocket

open World

/-- `create` makes nothing pending. -/
theorem later_create (sock : TCPSocket) (w : World) : w.Later (sock.create w).2.2 := by
  have hsocket := w.later_socket
  unfold create
  rcases hcall : w.socket with ⟨_ | fd, w'⟩
  · rw [hcall] at hsocket
    exact hsocket
  · rw [hcall] at hsocket
    exact hsocket.trans w'.later_setReuseaddr

theorem later_forgetPort (fd : Fd) (w : World) : w.Later (forgetPort fd w) := by
  obtain ⟨portsInUse, hforget⟩ := forgetPort_world fd w
  rw [hforget]
  exact (w.later_getsockname fd).trans (Later.ports _ portsInUse)

theorem later_close (sock : TCPSocket) (w : World) : w.Later (sock.close w).2.2 := by
  cases hfd : sock.fd with
  | none =>
    rw [close_none hfd]
    exact Later.refl w
  | some fd =>
    rw [close_world hfd]
    exact (later_forgetPort fd w).trans ((forgetPort fd w).later_close fd)

theorem later_destroy (sock : TCPSocket) (w : World) : w.Later (sock.destroy w) := by
  unfold destroy
  split
  · exact later_close sock w
  · exact Later.refl w

theorem later_setTimeout (sock : TCPSocket) (timeoutMs : UInt32) (option : TimeoutOption)
    (w : World) : w.Later (sock.setTimeout timeoutMs option w).2.2 := by
  rcases sock.setTimeout_world timeoutMs option w with hsame | ⟨fd, sec, usec, -, hset⟩
  · rw [hsame]
    exact Later.refl w
  · rw [hset]
    exact w.later_setsockopt fd option sec usec

theorem later_bind (sock : TCPSocket) (port : UInt16) (w : World) :
    w.Later (sock.bind port w).2 := by
  obtain hsame | ⟨fd, portsInUse, hbind⟩ := sock.bind_world port w
  · rw [hsame]
    exact Later.refl w
  · rw [hbind]
    exact (w.later_bind fd port).trans (Later.ports _ portsInUse)

theorem later_listen (sock : TCPSocket) (backlog : ℤ) (w : World) :
    w.Later (sock.listen backlog w).2 := by
  unfold listen
  cases sock.fd with
  | none => exact Later.refl w
  | some fd => exact w.later_listen fd backlog

/-- `accept` makes nothing pending that the client has not brought with it. -/
theorem later_accept (sock : TCPSocket) (w : World) : w.Later (sock.accept w).2 := by
  unfold accept
  cases sock.fd with
  | none => exact Later.refl w
  | some fd => exact w.later_accept fd

/-- `connect` is `::connect` behind some tests. -/
theorem later_connect (sock : TCPSocket) (ip : Bytes) (port : UInt16) (w : World) :
    w.Later (sock.connect ip port w).2 := by
  unfold connect
  cases sock.fd with
  | none => exact Later.refl w
  | some fd =>
    dsimp only
    split
    · exact w.later_connect fd _ port
    · exact Later.refl w

theorem later_getIP (domain : Bytes) (port : UInt16) (w : World) :
    w.Later (getIP domain port w).2 := by
  rw [getIP_world]
  exact w.later_getaddrinfo domain port

end TCPSocket

end Evaluation
