import Evaluation.Reply
import Evaluation.Server

namespace Evaluation

open Lib

/-!
# Which descriptors are open

What each call does to the open descriptors and to the ledger: `socket` and `accept` open a
descriptor or do nothing about it, `::close` of an open descriptor closes it, and the other calls
leave all as it is.  None but `poll` itself touches what `poll` is to report.

* `World.Between` — what every call keeps between two calls of `poll`;
* `World.Untouched`, `World.Opens`, `World.Closes` — the three things that a call can do;
* one lemma for each system call, and for each method of `TCPSocket`;
* `HTTPWorker.leads_run` — what the calls that open and close nothing leave alone, and the exchange
  with Link Analysis does, is left alone by every worker.
-/

namespace World

/-- The descriptors that are open. -/
def openFds (w : World) : Set Fd := {fd | (w.descriptors fd).isSome = true}

/-- `::close` is to succeed on every open descriptor. -/
def CanClose (w : World) : Prop := ∀ succeeds ∈ w.answers.close, succeeds = true

/-- The world after some calls other than `poll`. -/
structure Between (w w' : World) : Prop where
  poll : w'.answers.poll = w.answers.poll
  close : w'.answers.close <:+ w.answers.close

theorem Between.refl (w : World) : w.Between w := ⟨rfl, List.suffix_rfl⟩

theorem Between.trans {w w' w'' : World} (h : w.Between w') (h' : w'.Between w'') :
    w.Between w'' := ⟨h'.poll.trans h.poll, h'.close.trans h.close⟩

/-- Where `::close` never fails, it never fails later. -/
theorem Between.canClose {w w' : World} (h : w.Between w') (hw : w.CanClose) : w'.CanClose :=
  fun succeeds hmem => hw succeeds (h.close.subset hmem)

/-- Neither the open descriptors nor the ledger have changed. -/
structure Untouched (w w' : World) : Prop extends Between w w' where
  openFds : w'.openFds = w.openFds
  ledger : w'.ledger = w.ledger

theorem Untouched.refl (w : World) : w.Untouched w := ⟨Between.refl w, rfl, rfl⟩

theorem Untouched.trans {w w' w'' : World} (h : w.Untouched w') (h' : w'.Untouched w'') :
    w.Untouched w'' :=
  ⟨h.toBetween.trans h'.toBetween, h'.openFds.trans h.openFds, h'.ledger.trans h.ledger⟩

/-- The set of ports is another matter. -/
theorem untouched_ports (w : World) (portsInUse : Finset UInt16) :
    w.Untouched { w with portsInUse } := ⟨⟨rfl, List.suffix_rfl⟩, rfl, rfl⟩

/-- A descriptor has been opened. -/
structure Opens (w : World) (fd : Fd) (w' : World) : Prop extends Between w w' where
  fresh : fd ∉ w.openFds
  openFds : w'.openFds = insert fd w.openFds
  ledger : w'.ledger = w.ledger ++ [.opened fd]

theorem Opens.trans {w w' w'' : World} {fd : Fd} (h : w.Opens fd w') (h' : w'.Untouched w'') :
    w.Opens fd w'' :=
  ⟨h.toBetween.trans h'.toBetween, h.fresh, h'.openFds.trans h.openFds, h'.ledger.trans h.ledger⟩

/-- A descriptor has been closed. -/
structure Closes (w : World) (fd : Fd) (w' : World) : Prop extends Between w w' where
  wasOpen : fd ∈ w.openFds
  openFds : w'.openFds = w.openFds \ {fd}
  ledger : w'.ledger = w.ledger ++ [.closed fd]

/-- A descriptor may be closed after a stretch that leaves them alone. -/
theorem Untouched.closes {w w' w'' : World} {fd : Fd} (h : w.Untouched w')
    (h' : w'.Closes fd w'') : w.Closes fd w'' :=
  ⟨h.toBetween.trans h'.toBetween, h.openFds ▸ h'.wasOpen, by rw [h'.openFds, h.openFds],
    by rw [h'.ledger, h.ledger]⟩

/-! ### The system calls -/

/-- Setting a descriptor opens it. -/
theorem openFds_update_some {w w' : World} {fd : Fd} {d : Descriptor}
    (h : w'.descriptors = Function.update w.descriptors fd (some d)) :
    w'.openFds = insert fd w.openFds := by
  ext fd'
  show (w'.descriptors fd').isSome = true ↔ fd' = fd ∨ (w.descriptors fd').isSome = true
  rw [h]
  by_cases hfd : fd' = fd
  · simp [hfd]
  · simp [hfd]

/-- An open descriptor that changes stays open. -/
theorem openFds_update_same {w w' : World} {fd : Fd} {d d' : Descriptor}
    (hd : w.descriptors fd = some d)
    (h : w'.descriptors = Function.update w.descriptors fd (some d')) :
    w'.openFds = w.openFds := by
  rw [openFds_update_some h]
  refine Set.insert_eq_of_mem ?_
  show (w.descriptors fd).isSome = true
  rw [hd]
  rfl

/-- Clearing a descriptor closes it. -/
theorem openFds_update_none {w w' : World} {fd : Fd}
    (h : w'.descriptors = Function.update w.descriptors fd none) :
    w'.openFds = w.openFds \ {fd} := by
  ext fd'
  show (w'.descriptors fd').isSome = true ↔ (w.descriptors fd').isSome = true ∧ fd' ≠ fd
  rw [h]
  by_cases hfd : fd' = fd
  · simp [hfd]
  · simp [hfd]

/-- A descriptor that is not there is not open. -/
theorem notMem_openFds {w : World} {fd : Fd} (h : w.descriptors fd = none) : fd ∉ w.openFds := by
  show ¬ (w.descriptors fd).isSome = true
  rw [h]
  exact Bool.false_ne_true

/-- `::socket` opens what it returns, or fails and changes nothing. -/
theorem opens_socket (w : World) : (w.socket.1 = none ∧ w.Untouched w.socket.2) ∨
    ∃ fd, w.socket.1 = some fd ∧ w.Opens fd w.socket.2 := by
  unfold socket
  cases w.answers.socket.headD none with
  | none => exact .inl ⟨rfl, ⟨rfl, List.suffix_rfl⟩, rfl, rfl⟩
  | some fd =>
    -- The system hands out no descriptor that is open already.
    dsimp only
    split
    · rename_i hopen
      have hnone : w.descriptors fd = none := Option.isNone_iff_eq_none.mp hopen
      exact .inr ⟨fd, rfl, ⟨rfl, List.suffix_rfl⟩, notMem_openFds hnone,
        openFds_update_some rfl, rfl⟩
    · exact .inl ⟨rfl, ⟨rfl, List.suffix_rfl⟩, rfl, rfl⟩

theorem untouched_setReuseaddr (w : World) : w.Untouched w.setReuseaddr.2 :=
  ⟨⟨rfl, List.suffix_rfl⟩, rfl, rfl⟩

theorem untouched_setsockopt (w : World) (fd : Fd) (option : TimeoutOption) (sec usec : ℕ) :
    w.Untouched (w.setsockopt fd option sec usec).2 := by
  unfold setsockopt
  cases hd : w.descriptors fd with
  | none => exact ⟨⟨rfl, List.suffix_rfl⟩, rfl, rfl⟩
  | some d =>
    dsimp only
    split
    · cases option with
      | SO_RCVTIMEO => exact ⟨⟨rfl, List.suffix_rfl⟩, openFds_update_same hd rfl, rfl⟩
      | SO_SNDTIMEO => exact ⟨⟨rfl, List.suffix_rfl⟩, openFds_update_same hd rfl, rfl⟩
    · exact ⟨⟨rfl, List.suffix_rfl⟩, rfl, rfl⟩

theorem untouched_getsockname (w : World) (fd : Fd) : w.Untouched (w.getsockname fd).2 :=
  ⟨⟨rfl, List.suffix_rfl⟩, rfl, rfl⟩

theorem untouched_bind (w : World) (fd : Fd) (port : UInt16) :
    w.Untouched (w.bind fd port).2 := by
  unfold bind
  cases w.answers.bind.headD none with
  | none => exact ⟨⟨rfl, List.suffix_rfl⟩, rfl, rfl⟩
  | some free =>
    cases hd : w.descriptors fd with
    | none => exact ⟨⟨rfl, List.suffix_rfl⟩, rfl, rfl⟩
    | some d =>
      dsimp only
      split
      · exact ⟨⟨rfl, List.suffix_rfl⟩, openFds_update_same hd rfl, rfl⟩
      · exact ⟨⟨rfl, List.suffix_rfl⟩, rfl, rfl⟩

theorem untouched_listen (w : World) (fd : Fd) (backlog : ℤ) :
    w.Untouched (w.listen fd backlog).2 := ⟨⟨rfl, List.suffix_rfl⟩, rfl, rfl⟩

/-- `::accept` opens what it returns, or fails and changes nothing. -/
theorem opens_accept (w : World) (fd : Fd) :
    ((w.accept fd).1 = none ∧ w.Untouched (w.accept fd).2) ∨
      ∃ fd', (w.accept fd).1 = some fd' ∧ w.Opens fd' (w.accept fd).2 := by
  unfold accept
  cases w.answers.accept.headD none with
  | none => exact .inl ⟨rfl, ⟨rfl, List.suffix_rfl⟩, rfl, rfl⟩
  | some answer =>
    obtain ⟨fd', peer⟩ := answer
    cases w.descriptors fd with
    | none => exact .inl ⟨rfl, ⟨rfl, List.suffix_rfl⟩, rfl, rfl⟩
    | some d =>
      dsimp only
      -- A new descriptor has a number that was not open.
      split
      · rename_i hopen
        have hnone : w.descriptors fd' = none := Option.isNone_iff_eq_none.mp hopen
        exact .inr ⟨fd', rfl, ⟨rfl, List.suffix_rfl⟩, notMem_openFds hnone,
          openFds_update_some rfl, rfl⟩
      · exact .inl ⟨rfl, ⟨rfl, List.suffix_rfl⟩, rfl, rfl⟩

theorem untouched_connect (w : World) (fd : Fd) (ip : Bytes) (port : UInt16) :
    w.Untouched (w.connect fd ip port).2 := by
  unfold connect
  cases w.answers.connect.headD none with
  | none => exact ⟨⟨rfl, List.suffix_rfl⟩, rfl, rfl⟩
  | some answer =>
    obtain ⟨free, peer⟩ := answer
    cases hd : w.descriptors fd with
    | none => exact ⟨⟨rfl, List.suffix_rfl⟩, rfl, rfl⟩
    | some d => exact ⟨⟨rfl, List.suffix_rfl⟩, openFds_update_same hd rfl, rfl⟩

theorem untouched_getaddrinfo (w : World) (domain : Bytes) (port : UInt16) :
    w.Untouched (w.getaddrinfo domain port).2 := ⟨⟨rfl, List.suffix_rfl⟩, rfl, rfl⟩

/-- Sending opens and closes nothing. -/
theorem Sent.untouched {fd : Fd} {w w' : World} (h : Sent fd w w') : w.Untouched w' := by
  refine ⟨⟨by rw [h.answers], by rw [h.answers]⟩, ?_, h.ledger⟩
  ext fd'
  show (w'.descriptors fd').isSome = true ↔ (w.descriptors fd').isSome = true
  by_cases hfd : fd' = fd
  · subst hfd
    cases hd : w.descriptors fd' with
    | none => rw [h.closed hd]
    | some d =>
      obtain ⟨d', hd', -⟩ := h.opened d hd
      rw [hd']
      rfl
  · rw [h.other fd' hfd]

/-- `close` uses up what it asks the system for. -/
theorem between_close (w : World) (fd : Fd) : w.Between (w.close fd).2 := by
  unfold close
  dsimp only
  split
  · exact ⟨rfl, List.tail_suffix _⟩
  · exact ⟨rfl, List.tail_suffix _⟩

/-- `::close` of an open descriptor. -/
theorem closes_close {w : World} {fd : Fd} (hopen : fd ∈ w.openFds) (hclose : w.CanClose) :
    (w.close fd).1 = true ∧ w.Closes fd (w.close fd).2 := by
  have hanswer : w.answers.close.headD true = true := by
    unfold CanClose at hclose
    cases hanswers : w.answers.close with
    | nil => rfl
    | cons answer rest =>
      rw [hanswers] at hclose
      exact hclose answer (List.mem_cons_self ..)
  have hok : w.answers.close.headD true = true ∧ (w.descriptors fd).isSome = true :=
    ⟨hanswer, hopen⟩
  unfold close
  dsimp only
  rw [if_pos hok]
  exact ⟨rfl, ⟨rfl, List.tail_suffix _⟩, hopen, openFds_update_none rfl, rfl⟩

end World

/-! ### The methods of `TCPSocket` -/

namespace TCPSocket

open World

/-- `create` opens the descriptor that the object then holds, or leaves it with none. -/
theorem opens_create (sock : TCPSocket) (w : World) :
    ((sock.create w).1 = false ∧ (sock.create w).2.1.fd = none ∧
      w.Untouched (sock.create w).2.2) ∨
    ∃ fd, (sock.create w).1 = true ∧ (sock.create w).2.1.fd = some fd ∧
      w.Opens fd (sock.create w).2.2 := by
  have hsocket := w.opens_socket
  unfold create
  rcases hcall : w.socket with ⟨_ | fd, w'⟩
  · rw [hcall] at hsocket
    obtain ⟨-, huntouched⟩ | ⟨fd, ⟨⟩, -⟩ := hsocket
    exact .inl ⟨rfl, rfl, huntouched⟩
  · rw [hcall] at hsocket
    obtain ⟨⟨⟩, -⟩ | ⟨_, hfd, hopens⟩ := hsocket
    cases hfd
    exact .inr ⟨fd, rfl, rfl, hopens.trans w'.untouched_setReuseaddr⟩

theorem untouched_forgetPort (fd : Fd) (w : World) : w.Untouched (forgetPort fd w) := by
  obtain ⟨portsInUse, hforget⟩ := forgetPort_world fd w
  rw [hforget]
  exact (w.untouched_getsockname fd).trans (untouched_ports _ portsInUse)

theorem between_close (sock : TCPSocket) (w : World) : w.Between (sock.close w).2.2 := by
  cases hfd : sock.fd with
  | none =>
    rw [close_none hfd]
    exact Between.refl w
  | some fd =>
    -- The port is looked up and forgotten first.
    rw [close_world hfd]
    exact (untouched_forgetPort fd w).toBetween.trans ((forgetPort fd w).between_close fd)

/-- `close` of a socket whose descriptor is open. -/
theorem closes_close {sock : TCPSocket} {w : World} {fd : Fd} (hfd : sock.fd = some fd)
    (hopen : fd ∈ w.openFds) (hclose : w.CanClose) :
    (sock.close w).2.1 = {} ∧ w.Closes fd (sock.close w).2.2 := by
  have huntouched := untouched_forgetPort fd w
  obtain ⟨hret, hcloses⟩ := World.closes_close (huntouched.openFds.symm ▸ hopen)
    (huntouched.toBetween.canClose hclose)
  rw [close_some hfd, if_pos hret]
  exact ⟨rfl, huntouched.closes hcloses⟩

theorem between_destroy (sock : TCPSocket) (w : World) : w.Between (sock.destroy w) := by
  unfold destroy
  split
  · exact between_close sock w
  · exact Between.refl w

/-- The destructor of an object with no descriptor does nothing. -/
theorem destroy_none {sock : TCPSocket} (hfd : sock.fd = none) (w : World) :
    sock.destroy w = w := by
  unfold destroy
  rw [hfd]
  rfl

/-- The destructor of a socket closes its descriptor. -/
theorem closes_destroy {sock : TCPSocket} {w : World} {fd : Fd} (hfd : sock.fd = some fd)
    (hopen : fd ∈ w.openFds) (hclose : w.CanClose) : w.Closes fd (sock.destroy w) := by
  have hcloses := (closes_close hfd hopen hclose).2
  unfold destroy
  rw [if_pos (by rw [hfd]; rfl)]
  exact hcloses

theorem untouched_setTimeout (sock : TCPSocket) (timeoutMs : UInt32) (option : TimeoutOption)
    (w : World) : w.Untouched (sock.setTimeout timeoutMs option w).2.2 := by
  rcases sock.setTimeout_world timeoutMs option w with hsame | ⟨fd, sec, usec, -, hset⟩
  · rw [hsame]
    exact Untouched.refl w
  · rw [hset]
    exact w.untouched_setsockopt fd option sec usec

theorem untouched_bind (sock : TCPSocket) (port : UInt16) (w : World) :
    w.Untouched (sock.bind port w).2 := by
  obtain hsame | ⟨fd, portsInUse, hbind⟩ := sock.bind_world port w
  · rw [hsame]
    exact Untouched.refl w
  · rw [hbind]
    exact (w.untouched_bind fd port).trans (untouched_ports _ portsInUse)

theorem untouched_listen (sock : TCPSocket) (backlog : ℤ) (w : World) :
    w.Untouched (sock.listen backlog w).2 := by
  unfold listen
  cases sock.fd with
  | none => exact Untouched.refl w
  | some fd => exact w.untouched_listen fd backlog

/-- `accept` opens the descriptor of the socket that it returns, or nothing. -/
theorem opens_accept (sock : TCPSocket) (w : World) :
    ((sock.accept w).1 = none ∧ w.Untouched (sock.accept w).2) ∨
      ∃ fd, (sock.accept w).1 = some (.ofFd fd) ∧ w.Opens fd (sock.accept w).2 := by
  unfold accept
  cases sock.fd with
  | none => exact .inl ⟨rfl, Untouched.refl w⟩
  | some fd =>
    dsimp only
    obtain ⟨hnone, huntouched⟩ | ⟨fd', hsome, hopens⟩ := w.opens_accept fd
    · exact .inl ⟨by rw [hnone]; rfl, huntouched⟩
    · exact .inr ⟨fd', by rw [hsome]; rfl, hopens⟩

theorem untouched_connect (sock : TCPSocket) (ip : Bytes) (port : UInt16) (w : World) :
    w.Untouched (sock.connect ip port w).2 := by
  unfold connect
  cases sock.fd with
  | none => exact Untouched.refl w
  | some fd =>
    dsimp only
    split
    · exact w.untouched_connect fd _ port
    · exact Untouched.refl w

theorem untouched_getIP (domain : Bytes) (port : UInt16) (w : World) :
    w.Untouched (getIP domain port w).2 := by
  rw [getIP_world]
  exact w.untouched_getaddrinfo domain port

/-- What is left to read has nothing to do with it. -/
theorem untouched_setRecvs (sock : TCPSocket) (recvs : List RecvResult) (w : World) :
    w.Untouched (sock.setRecvs recvs w) := by
  unfold setRecvs
  cases sock.fd with
  | none => exact Untouched.refl w
  | some fd =>
    dsimp only
    cases hd : w.descriptors fd with
    | none => exact Untouched.refl w
    | some d => exact ⟨⟨rfl, List.suffix_rfl⟩, openFds_update_same hd rfl, rfl⟩

/-- However `send` ends, which is not at `poll`. -/
theorem untouched_send (sock : TCPSocket) (val : Bytes) (fullMsg : Bool) (w : World) :
    (sock.send val fullMsg).Safe w
      (Prog.Within (fun _ w' => w.Untouched w') fun halt _ => halt ≠ .idle) := by
  cases hfd : sock.fd with
  | none =>
    unfold send
    rw [hfd]
    exact (Prog.safe_pure ..).mpr (Untouched.refl w)
  | some fd =>
    refine (send_safe hfd val fullMsg w).mono fun o ho => ?_
    cases o with
    | ok sent w' =>
      have hsent : World.Sent fd w w' := ho
      exact hsent.untouched
    | error halt w' =>
      rintro rfl
      obtain ⟨-, ⟨⟨⟩, -⟩ | ⟨⟨⟩, -⟩⟩ := ho

end TCPSocket

/-! ### What a worker keeps -/

namespace HTTPWorker

section

variable {lib : Library} {α β : Type} {I : World → Prop}

/-- The program leads from worlds with `I` to worlds with `J`, and never stops at `poll`. -/
def Leads (I : World → Prop) (x : ServerM α) (J : α → World → Prop) : Prop :=
  Prog.Triple (fun p => I p.world) x (fun a p => J a p.world) fun halt _ => halt ≠ .idle

theorem Leads.bind {x : ServerM α} {f : α → ServerM β} {J : α → World → Prop}
    {K : β → World → Prop} (hx : Leads I x J) (hf : ∀ a, Leads (J a) (f a) K) :
    Leads I (x >>= f) K := Prog.Triple.bind hx hf

theorem leads_pure (a : α) : Leads I (pure a) fun _ => I :=
  Prog.triple_pure (J := fun _ (p : Process) => I p.world) a

theorem leads_orUncaught (x : Except Exn α) : Leads I (orUncaught x) fun _ => I := by
  cases x with
  | ok a => exact leads_pure a
  | error e => exact Prog.triple_throw fun p _ => Halt.noConfusion

theorem leads_record (event : Event) : Leads I (record event) fun _ => I :=
  Prog.triple_ofFun fun _ hp => hp

/-- A step on the world leads where its function does. -/
theorem leads_onWorld {f : World → α × World} {J : α → World → Prop}
    (h : ∀ w, I w → J (f w).1 (f w).2) : Leads I (onWorld f) J :=
  triple_onWorld fun p hp => h p.world hp

/-- A step on the world keeps what its function keeps. -/
theorem leads_onWorld_same {f : World → α × World} (h : ∀ w, I w → I (f w).2) :
    Leads I (onWorld f) fun _ => I := leads_onWorld h

-- `I` holds on after the calls that open and close nothing.
variable (hI : ∀ w w', I w → w.Untouched w' → I w')

include hI

theorem leads_inWorld_send (sock : TCPSocket) (val : Bytes) (fullMsg : Bool) :
    Leads I (inWorld (sock.send val fullMsg)) fun _ => I := by
  intro p hp
  refine (Prog.safe_zoom ..).mpr ((sock.untouched_send val fullMsg p.world).mono ?_)
  rintro (⟨sent, w'⟩ | ⟨halt, w'⟩) ho
  · exact hI _ _ hp ho
  · exact ho

theorem leads_send (worker : HTTPWorker) (response : Except Exn HTTPResponse) :
    Leads I (worker.send lib response) fun _ => I :=
  (leads_orUncaught response).bind fun _ =>
    (leads_record _).bind fun _ => leads_inWorld_send hI _ _ _

theorem leads_reply (worker : HTTPWorker) (response : Except Exn HTTPResponse) :
    Leads I (worker.reply lib response) fun _ => I :=
  (leads_send hI worker response).bind fun _ => leads_pure ()

/-- What happens to the Link Analysis socket between its creation and its end. -/
theorem leads_exchangeLink (created : Bool) (sock : TCPSocket) (ip link : Bytes) :
    Leads I (exchangeLink lib created sock ip link) fun _ => I := by
  unfold exchangeLink
  split
  · refine (leads_onWorld_same fun w hw => hI _ _ hw (sock.untouched_connect ..)).bind
      fun connected => ?_
    split
    · exact (leads_orUncaught _).bind fun _ =>
        (leads_record _).bind fun _ => leads_inWorld_send hI _ _ _
    · exact leads_pure false
  · exact leads_pure false

/-- What a handler keeps, if the exchange with Link Analysis keeps it. -/
theorem leads_call (hforward : ∀ link, Leads I (forward lib link) fun _ => I)
    (worker : HTTPWorker) (request : HTTPRequest) (handler : Handler) :
    Leads I (worker.call lib request handler) fun _ => I := by
  obtain hcall | ⟨-, hcall⟩ | ⟨link, -, -, hcall⟩ := call_cases lib worker request handler
  · rw [hcall 0]
    exact leads_reply hI worker _
  · rw [hcall]
    have hnext : Leads I nextQueryID fun _ => I := Prog.triple_ofFun fun _ hp => hp
    exact hnext.bind fun id => leads_reply hI worker _
  · rw [hcall]
    refine (leads_send hI worker _).bind fun _ => ?_
    split
    · exact leads_pure ()
    · exact hforward link

/-- **A worker** keeps it as well, and its descriptor. -/
theorem leads_run (hforward : ∀ link, Leads I (forward lib link) fun _ => I)
    (worker : HTTPWorker) :
    Leads I (worker.run lib) fun worker' w => worker'.socket.fd = worker.socket.fd ∧ I w := by
  intro p hp o ho
  let set := worker.socket.setTimeout 10 .SO_RCVTIMEO p.world
  have hset : I set.2.2 := hI _ _ hp (worker.socket.untouched_setTimeout ..)
  have hfd : set.2.1.fd = worker.socket.fd := worker.socket.setTimeout_fd ..
  obtain ⟨s, ⟨request, -, hanswer⟩ | ⟨e, rfl⟩⟩ := run_cases ho
  · -- The world when the request has been read.
    have hread : I (set.2.1.setRecvs s.socket set.2.2) :=
      hI _ _ hset (set.2.1.untouched_setRecvs ..)
    have hkeeps : Leads I (answer lib ⟨set.2.1⟩ request) fun _ => I := by
      unfold answer
      cases checkRequest lib.json request with
      | error response => exact leads_reply hI _ response
      | ok request =>
        exact (leads_record _).bind fun _ => leads_call hI hforward _ request _
    have hreturn : Leads I (pure ⟨set.2.1⟩ : ServerM HTTPWorker)
        fun worker' w => worker'.socket.fd = worker.socket.fd ∧ I w :=
      Prog.triple_ofFun fun _ hp' => ⟨hfd, hp'⟩
    exact (hkeeps.bind fun _ => hreturn) _ hread _ hanswer
  · exact Halt.noConfusion

end

/-- What is left alone by every call but `poll` is left alone by every worker. -/
theorem leads_run_of_between {lib : Library} {I : World → Prop}
    (hI : ∀ w w', I w → w.Between w' → I w') (worker : HTTPWorker) :
    Leads I (worker.run lib) fun worker' w => worker'.socket.fd = worker.socket.fd ∧ I w := by
  have huntouched : ∀ w w', I w → w.Untouched w' → I w' :=
    fun w w' hw hw' => hI w w' hw hw'.toBetween
  refine leads_run huntouched ?_ worker
  intro link
  refine (leads_onWorld_same fun w hw => huntouched _ _ hw (TCPSocket.untouched_getIP ..)).bind
    fun ip => ?_
  refine Leads.bind (J := fun _ => I) (leads_onWorld_same fun w hw => ?_) fun created => ?_
  · obtain ⟨-, -, hcreate⟩ | ⟨fd, -, -, hcreate⟩ := ({} : TCPSocket).opens_create w
    · exact huntouched _ _ hw hcreate
    · exact hI _ _ hw hcreate.toBetween
  · refine (leads_exchangeLink huntouched created.1 created.2 ip link).bind fun _ => ?_
    exact leads_onWorld fun w hw => hI _ _ hw (created.2.between_destroy w)

end HTTPWorker

/-! ### The server -/

namespace HTTPServer

/-- `init` opens the listener, or fails. -/
theorem opens_init (server : HTTPServer) (w : World) :
    ((server.init w).1 = false ∧ (server.init w).2.1.listenerSocket.fd = none ∧
      w.Untouched (server.init w).2.2) ∨
    ∃ fd, (server.init w).2.1.listenerSocket.fd = some fd ∧ w.Opens fd (server.init w).2.2 := by
  have hcreate := server.listenerSocket.opens_create w
  unfold init
  rcases hcall : server.listenerSocket.create w with ⟨_ | _, sock, w₁⟩
  · rw [hcall] at hcreate
    obtain ⟨-, hfd, huntouched⟩ | ⟨fd, ⟨⟩, -⟩ := hcreate
    exact .inl ⟨rfl, hfd, huntouched⟩
  · rw [hcall] at hcreate
    obtain ⟨⟨⟩, -⟩ | ⟨fd, -, hfd, hopens⟩ := hcreate
    -- A listener that cannot be bound, or that does not listen, stays open none the less.
    have hbind := hopens.trans (sock.untouched_bind server.listenerPort w₁)
    dsimp only
    rcases hcall : sock.bind server.listenerPort w₁ with ⟨_ | _, w₂⟩
    · rw [hcall] at hbind
      exact .inr ⟨fd, hfd, hbind⟩
    · rw [hcall] at hbind
      exact .inr ⟨fd, hfd, hbind.trans (sock.untouched_listen server.backlogSize w₂)⟩

theorem between_init (server : HTTPServer) (w : World) : w.Between (server.init w).2.2 := by
  obtain ⟨-, -, huntouched⟩ | ⟨fd, -, hopens⟩ := server.opens_init w
  · exact huntouched.toBetween
  · exact hopens.toBetween

/-- What is left alone by every call but `poll` is left alone when a client is served. -/
theorem leads_acceptClient {lib : Library} {I : World → Prop}
    (hI : ∀ w w', I w → w.Between w' → I w') (server : HTTPServer) :
    HTTPWorker.Leads I (server.acceptClient lib) fun _ => I := by
  refine HTTPWorker.Leads.bind (J := fun _ => I) ?_ fun client => ?_
  · apply HTTPWorker.leads_onWorld_same
    intro w hw
    obtain ⟨-, haccept⟩ | ⟨fd, -, haccept⟩ := server.listenerSocket.opens_accept w
    · exact hI _ _ hw haccept.toBetween
    · exact hI _ _ hw haccept.toBetween
  · cases client with
    | none => exact HTTPWorker.leads_pure ()
    | some sock =>
      refine (HTTPWorker.leads_run_of_between hI ⟨sock.moveConstruct.1⟩).bind fun worker => ?_
      apply HTTPWorker.leads_onWorld
      rintro w ⟨-, hw⟩
      have hworker := worker.socket.between_destroy w
      exact hI _ _ hw (hworker.trans (sock.moveConstruct.2.between_destroy _))

end HTTPServer

end Evaluation
