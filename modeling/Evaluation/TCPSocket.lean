import Evaluation.Lib.Correct
import Evaluation.World

namespace Evaluation

open Lib

/-!
# `TCPSocket`

The class of `TCPSocket.h` / `TCPSocket.cpp`, built with `REUSEADDR` as both Makefiles do.  A
method that changes the object returns the new one; a method that only makes system calls
returns its result and the new world.  `TCPSocket::send` is a program, for its loop and
because a `::send` may end the process.
-/

/-- The members of a `TCPSocket`; no descriptor stands for -1. -/
structure TCPSocket where
  fd : Option Fd := none
  sendTimeout : UInt32 := 0
  recvTimeout : UInt32 := 0
  deriving DecidableEq, Repr

/-- How a process ends, or stops moving, other than by returning from `main`: an exception that
    nobody catches, SIGPIPE, a `::send` that never returns, a `poll` that nothing ever wakes. -/
inductive Halt where
  | uncaught (e : Exn)
  | sigpipe
  | blocked
  | idle
  deriving DecidableEq, Repr

namespace TCPSocket

/-- The constructor used by `accept`. -/
def ofFd (fd : Fd) : TCPSocket := { fd := some fd }

/-- `create` overwrites the descriptor, whatever it was. -/
def create (sock : TCPSocket) (w : World) : Bool × TCPSocket × World :=
  match w.socket with
  | (none, w) => (false, { sock with fd := none }, w)
  | (some fd, w) => (true, { sock with fd := some fd }, w.setReuseaddr.2)

/-- What `close` does first under `REUSEADDR`: the port that `getsockname` reports is taken out
    of the set. -/
def forgetPort (fd : Fd) (w : World) : World :=
  match w.getsockname fd with
  | (none, w) => w
  | (some port, w) => { w with portsInUse := w.portsInUse.erase port }

def close (sock : TCPSocket) (w : World) : Bool × TCPSocket × World :=
  match sock.fd with
  | none => (false, sock, w)
  | some fd =>
    match (forgetPort fd w).close fd with
    | (true, w) => (true, {}, w)
    | (false, w) => (false, sock, w)

/-- The move constructor: the new object, and what is left of the old one. -/
def moveConstruct (sock : TCPSocket) : TCPSocket × TCPSocket := (sock, {})

/-- The move assignment: the object assigned to, what is left of the other one, and the world
    after the first has closed what it held. -/
def moveAssign (dst src : TCPSocket) (w : World) : TCPSocket × TCPSocket × World :=
  if dst.fd.isSome then (src, {}, (dst.close w).2.2) else (src, {}, w)

/-- The move assignment of an object to itself, which ends with no descriptor. -/
def moveAssignSelf (sock : TCPSocket) (w : World) : TCPSocket × World :=
  if sock.fd.isSome then ({}, (sock.close w).2.2) else ({}, w)

/-- The destructor. -/
def destroy (sock : TCPSocket) (w : World) : World :=
  if sock.fd.isSome then (sock.close w).2.2 else w

def setTimeout (sock : TCPSocket) (timeoutMs : UInt32) (option : TimeoutOption) (w : World) :
    Bool × TCPSocket × World :=
  match sock.fd with
  | none => (false, sock, w)
  | some fd =>
    if (option = .SO_RCVTIMEO ∧ sock.recvTimeout = timeoutMs)
        ∨ (option = .SO_SNDTIMEO ∧ sock.sendTimeout = timeoutMs) then (true, sock, w)
    else
      let (set, w) := w.setsockopt fd option (timeoutMs.toNat / 1000) (timeoutMs.toNat * 1000)
      if set then
        match option with
        | .SO_RCVTIMEO => (true, { sock with recvTimeout := timeoutMs }, w)
        | .SO_SNDTIMEO => (true, { sock with sendTimeout := timeoutMs }, w)
      else (false, sock, w)

/-- `bind` looks the requested port up in the set, and adds it on success. -/
def bind (sock : TCPSocket) (port : UInt16) (w : World) : Bool × World :=
  match sock.fd with
  | none => (false, w)
  | some fd =>
    if port ∈ w.portsInUse then (false, w)
    else
      let (bound, w) := w.bind fd port
      if bound then (true, { w with portsInUse := insert port w.portsInUse }) else (false, w)

def listen (sock : TCPSocket) (backlog : ℤ) (w : World) : Bool × World :=
  match sock.fd with
  | none => (false, w)
  | some fd => w.listen fd backlog

def accept (sock : TCPSocket) (w : World) : Option TCPSocket × World :=
  match sock.fd with
  | none => (none, w)
  | some fd =>
    let (fd', w) := w.accept fd
    (fd'.map ofFd, w)

/-- `ip.c_str()`, as far as a reader of a C string sees it. -/
def cString (ip : Bytes) : Bytes := ip.takeWhile fun c => c != 0

def connect (sock : TCPSocket) (ip : Bytes) (port : UInt16) (w : World) : Bool × World :=
  match sock.fd with
  | none => (false, w)
  | some fd => if inetPton (cString ip) then w.connect fd (cString ip) port else (false, w)

/-- The address in a buffer of 16 bytes, or the empty string. -/
def getIP (domain : Bytes) (port : UInt16) (w : World) : Bytes × World :=
  match w.getaddrinfo domain port with
  | (none, w) => ([], w)
  | (some ip, w) => ((ip ++ List.replicate 16 0).take 16, w)

/-- A round of the loop of `send`, whose count of the bytes sent is an `unsigned int`. -/
def sendRound (fd : Fd) (val : Bytes) (fullMsg : Bool) (sent : UInt32) :
    Prog Halt World (UInt32 ⊕ UInt32) := do
  let result ← Prog.ofFun fun w => let (result, w) := w.send fd (val.drop sent.toNat); .ok result w
  match result with
  | .sent n =>
    let sent := sent + UInt32.ofNat n
    if sent.toNat < val.length ∧ fullMsg = true then pure (.inl sent) else pure (.inr sent)
  | .failed => pure (.inr sent)
  | .reset => Prog.throw .sigpipe
  | .blocked => Prog.throw .blocked

def send (sock : TCPSocket) (val : Bytes) (fullMsg : Bool) : Prog Halt World Bool := do
  match sock.fd with
  | none => pure false
  | some fd =>
    let sent ← Prog.loop (sendRound fd val fullMsg) 0
    pure (decide (sent.toNat = val.length))

/-! ### What the moves leave -/

/-- The move assignment is a destruction of the object assigned to, and a move construction. -/
theorem moveAssign_eq (dst src : TCPSocket) (w : World) :
    dst.moveAssign src w = (src, {}, dst.destroy w) := by
  unfold moveAssign destroy
  split <;> rfl

/-- Moving an object onto itself destroys what it holds. -/
theorem moveAssignSelf_eq (sock : TCPSocket) (w : World) :
    sock.moveAssignSelf w = ({}, sock.destroy w) := by
  unfold moveAssignSelf destroy
  split <;> rfl

/-! ### What `setTimeout` changes -/

/-- Setting a time-out keeps the descriptor. -/
theorem setTimeout_fd (sock : TCPSocket) (timeoutMs : UInt32) (option : TimeoutOption)
    (w : World) : (sock.setTimeout timeoutMs option w).2.1.fd = sock.fd := by
  unfold setTimeout
  cases hfd : sock.fd with
  | none => exact hfd
  | some fd =>
    dsimp only
    split
    · exact hfd
    · split
      · cases option <;> rfl
      · exact hfd

/-- The world is that after a call of `setsockopt`, if there is one. -/
theorem setTimeout_world (sock : TCPSocket) (timeoutMs : UInt32) (option : TimeoutOption)
    (w : World) : (sock.setTimeout timeoutMs option w).2.2 = w ∨
      ∃ fd sec usec, sock.fd = some fd ∧
        (sock.setTimeout timeoutMs option w).2.2 = (w.setsockopt fd option sec usec).2 := by
  unfold setTimeout
  cases hfd : sock.fd with
  | none => exact .inl rfl
  | some fd =>
    dsimp only
    split
    · exact .inl rfl
    · refine .inr ⟨fd, timeoutMs.toNat / 1000, timeoutMs.toNat * 1000, rfl, ?_⟩
      split
      · cases option <;> rfl
      · rfl

/-! ### The world behind a call -/

/-- Apart from the set, `forgetPort` calls `getsockname` and nothing else. -/
theorem forgetPort_world (fd : Fd) (w : World) :
    ∃ portsInUse, forgetPort fd w = { (w.getsockname fd).2 with portsInUse } := by
  unfold forgetPort
  rcases w.getsockname fd with ⟨_ | port, w'⟩
  · exact ⟨w'.portsInUse, rfl⟩
  · exact ⟨w'.portsInUse.erase port, rfl⟩

/-- Closing an object that holds nothing does nothing. -/
theorem close_none {sock : TCPSocket} (hfd : sock.fd = none) (w : World) :
    (sock.close w).2.2 = w := by
  unfold close
  rw [hfd]

/-- `close` forgets the port, closes the descriptor, and lets go of it if that has worked. -/
theorem close_some {sock : TCPSocket} {fd : Fd} (hfd : sock.fd = some fd) (w : World) :
    sock.close w =
      (((forgetPort fd w).close fd).1, if ((forgetPort fd w).close fd).1 then {} else sock,
        ((forgetPort fd w).close fd).2) := by
  unfold close
  rw [hfd]
  dsimp only
  rcases (forgetPort fd w).close fd with ⟨_ | _, w'⟩ <;> rfl

/-- What `close` leaves is what `::close` leaves behind the bookkeeping. -/
theorem close_world {sock : TCPSocket} {fd : Fd} (hfd : sock.fd = some fd) (w : World) :
    (sock.close w).2.2 = ((forgetPort fd w).close fd).2 := by
  rw [close_some hfd]

/-- Apart from the set, the world is that after a call of `::bind`, if there is one. -/
theorem bind_world (sock : TCPSocket) (port : UInt16) (w : World) :
    (sock.bind port w).2 = w ∨
      ∃ fd portsInUse, (sock.bind port w).2 = { (w.bind fd port).2 with portsInUse } := by
  unfold bind
  cases sock.fd with
  | none => exact .inl rfl
  | some fd =>
    dsimp only
    split
    · exact .inl rfl
    · refine .inr ⟨fd, ?_⟩
      split
      · exact ⟨_, rfl⟩
      · exact ⟨(w.bind fd port).2.portsInUse, rfl⟩

/-- Looking up an address is `getaddrinfo`. -/
theorem getIP_world (domain : Bytes) (port : UInt16) (w : World) :
    (getIP domain port w).2 = (w.getaddrinfo domain port).2 := by
  unfold getIP
  rcases w.getaddrinfo domain port with ⟨_ | ip, w'⟩ <;> rfl

/-! ### How `send` ends -/

/-- One of the results to come for a descriptor. -/
def Awaits (fd : Fd) (w : World) (result : SendResult) : Prop :=
  ∃ d, w.descriptors fd = some d ∧ result ∈ d.peer.sends

/-- Nothing is to come after some calls of `::send` that was not to come before. -/
theorem Awaits.of_sent {fd : Fd} {w w' : World} {result : SendResult} (h : World.Sent fd w w')
    (ha : Awaits fd w' result) : Awaits fd w result := by
  obtain ⟨d', hd', i, hi⟩ := ha
  cases hd : w.descriptors fd with
  | none =>
    rw [h.closed hd] at hd'
    cases hd'
  | some d =>
    obtain ⟨d'', hd'', -, n, hdrop⟩ := h.opened d hd
    rw [hd'] at hd''
    cases hd''
    rw [hdrop] at hi
    exact ⟨d, hd, i + n, hi⟩

/-- How a call of `send` ends: SIGPIPE and a `::send` that never returns are results of that
    descriptor. -/
def SendEnd (fd : Fd) (w : World) {α : Type} : Lib.Outcome Halt World α → Prop
  | .ok _ w' => World.Sent fd w w'
  | .error halt w' => World.Sent fd w w' ∧
      ((halt = .sigpipe ∧ Awaits fd w .reset) ∨ (halt = .blocked ∧ Awaits fd w .blocked))

/-- A round starts with a call of `::send`. -/
theorem returns_sendCall {fd : Fd} {data : Bytes} {w w' : World} {result : SendResult}
    (hcall : w.send fd data = (result, w')) :
    (Prog.ofFun fun w => .ok (w.send fd data).1 (w.send fd data).2 :
      Prog Halt World SendResult).Returns w (.ok result w') := by
  rw [Prog.returns_ofFun, hcall]

/-- What a round does, whatever the length of the message. -/
theorem sendRound_safe (fd : Fd) (val : Bytes) (fullMsg : Bool) (sent : UInt32) {w w' : World}
    (hsent : World.Sent fd w w') :
    (sendRound fd val fullMsg sent).Safe w'
      (Prog.AfterRound (fun _ w'' => World.Sent fd w w'') (SendEnd fd w)) := by
  obtain ⟨hstep, hres⟩ := w'.send_spec fd (val.drop sent.toNat)
  rcases hcall : w'.send fd (val.drop sent.toNat) with ⟨result, w''⟩
  rw [hcall] at hstep hres
  refine (Prog.safe_bind_of_ok (returns_sendCall hcall) _).mpr ?_
  -- A result that ends the process is one that was to come on this descriptor.
  have hawaits : ∀ {fatal : SendResult}, result = fatal → fatal ≠ .failed →
      (∀ n, fatal ≠ .sent n) → Awaits fd w fatal := by
    rintro _ rfl hfailed hcount
    obtain hfail | ⟨n, hn, -⟩ | ⟨-, hcoming⟩ := hres
    · exact absurd hfail hfailed
    · exact absurd hn (hcount n)
    · exact Awaits.of_sent hsent hcoming
  cases result with
  | sent n =>
    dsimp only
    split
    · exact (Prog.safe_pure ..).mpr (hsent.trans hstep)
    · exact (Prog.safe_pure ..).mpr (hsent.trans hstep)
  | failed => exact (Prog.safe_pure ..).mpr (hsent.trans hstep)
  | reset =>
    exact (Prog.safe_ofFun ..).mpr ⟨hsent.trans hstep, .inl ⟨rfl, hawaits rfl nofun nofun⟩⟩
  | blocked =>
    exact (Prog.safe_ofFun ..).mpr ⟨hsent.trans hstep, .inr ⟨rfl, hawaits rfl nofun nofun⟩⟩

/-- However `send` ends, it has changed nothing but what its descriptor has sent. -/
theorem send_safe {sock : TCPSocket} {fd : Fd} (hfd : sock.fd = some fd) (val : Bytes)
    (fullMsg : Bool) (w : World) : (sock.send val fullMsg).Safe w (SendEnd fd w) := by
  unfold send
  rw [hfd]
  refine Prog.Safe.bind (Prog.safe_loop (fun _ w' => World.Sent fd w w')
    (fun sent w' hsent => sendRound_safe fd val fullMsg sent hsent) (World.Sent.refl fd w)) ?_ ?_
  · exact fun sent w' hsent => (Prog.safe_pure ..).mpr hsent
  · exact fun halt w' h => h

/-- The counter does not wrap while it counts bytes of a message that is shorter than 2³². -/
theorem toNat_add_ofNat {sent : UInt32} {n : ℕ} (h : sent.toNat + n < 2 ^ 32) :
    (sent + UInt32.ofNat n).toNat = sent.toNat + n := by
  rw [UInt32.toNat_add, UInt32.toNat_ofNat']
  omega

/-- **The loop of `send` ends** for a message shorter than 2³² bytes, however long the other end
    goes on taking bytes: each round that goes on has sent one at least. -/
theorem sendLoop_ends (fd : Fd) {val : Bytes} (fullMsg : Bool) (hlen : val.length < 2 ^ 32)
    (w : World) : (Prog.loop (sendRound fd val fullMsg) 0).Ends w fun _ => True := by
  -- What is left of the message gets shorter; only the first call may be offered nothing.
  refine Prog.ends_loop (fun sent _ => sent.toNat ≤ val.length)
    (fun sent _ => val.length - sent.toNat) ?_ (Nat.zero_le _)
  intro sent w' hsent
  obtain ⟨-, hres⟩ := w'.send_spec fd (val.drop sent.toNat)
  rcases hcall : w'.send fd (val.drop sent.toNat) with ⟨result, w''⟩
  rw [hcall] at hres
  refine (Prog.ends_bind_of_ok (returns_sendCall hcall) _).mpr ?_
  cases result with
  | sent n =>
    dsimp only
    split
    · rename_i hmore
      obtain ⟨⟨⟩⟩ | ⟨_, ⟨⟩, hle, hone⟩ | ⟨hcount, -⟩ := hres
      · rw [List.length_drop] at hle
        have hcount : (sent + UInt32.ofNat n).toNat = sent.toNat + n := toNat_add_ofNat (by omega)
        rw [hcount] at hmore
        have hn : 1 ≤ n := hone (by rw [ne_eq, List.drop_eq_nil_iff, not_le]; omega)
        apply (Prog.ends_pure ..).mpr
        show (sent + UInt32.ofNat n).toNat ≤ val.length ∧
          val.length - (sent + UInt32.ofNat n).toNat < val.length - sent.toNat
        omega
      · exact absurd rfl (hcount n)
    · exact (Prog.ends_pure ..).mpr trivial
  | failed => exact (Prog.ends_pure ..).mpr trivial
  | reset => exact (Prog.ends_throw ..).mpr trivial
  | blocked => exact (Prog.ends_throw ..).mpr trivial

/-- **`send` ends** for such a message, and changes nothing but what its descriptor has sent. -/
theorem send_ends {sock : TCPSocket} {fd : Fd} (hfd : sock.fd = some fd) {val : Bytes}
    (fullMsg : Bool) (hlen : val.length < 2 ^ 32) (w : World) :
    (sock.send val fullMsg).Ends w (SendEnd fd w) := by
  refine Prog.Ends.of_safe (P := fun _ => True) ?_ (send_safe hfd val fullMsg w)
  unfold send
  rw [hfd]
  refine (sendLoop_ends fd fullMsg hlen w).bind ?_ ?_
  · exact fun sent w' _ => (Prog.ends_pure ..).mpr trivial
  · exact fun halt w' _ => trivial

end TCPSocket

end Evaluation
