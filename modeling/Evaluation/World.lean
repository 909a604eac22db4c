import Mathlib.Data.Finset.Basic
import Mathlib.Data.Stream.Init
import Evaluation.Lib.Ledger
import Evaluation.SocketStream

namespace Evaluation

open Lib

/-!
# The system calls

What the program sees of the operating system: the open descriptors, and for each system call
the list of the answers that its next calls will get.  A statement about every `World` is
therefore one about every way in which the calls succeed or fail.  An answer that the system
cannot give (a descriptor that is open already, a second port for a descriptor) counts as a
failure; past the end of its list a call that opens something fails, and every other call
succeeds.  The results of `::send` never end: a peer may go on taking bytes for ever.

The static member `ports_in_use` of `TCPSocket` lives here as well.
-/

/-- A file descriptor. -/
abbrev Fd := ℕ

/-- What one `::send` does: the kernel takes some bytes; it returns -1; the connection has been
    reset, which raises SIGPIPE; or it never returns, because the peer does not read. -/
inductive SendResult where
  | sent (n : ℕ)
  | failed
  | reset
  | blocked
  deriving DecidableEq, Repr

/-- What the other end of a connection does: what the calls of `::recv` and `::send` to come
    will give. -/
structure Peer where
  recvs : List RecvResult
  sends : Stream' SendResult

/-- No other end: nothing comes from it, and every `::send` fails. -/
def Peer.absent : Peer := ⟨[], .const .failed⟩

/-- What the kernel keeps for an open descriptor: its local port (0 when it has none) and whether
    a successful `bind` gave it, the time-outs in microseconds (0 for none), the bytes taken from
    `::send`, and the other end. -/
structure Descriptor where
  port : UInt16
  bound : Bool
  recvTimeout : ℕ
  sendTimeout : ℕ
  accepted : Bytes
  peer : Peer

/-- A descriptor just returned by `socket` or `accept`. -/
def Descriptor.fresh (port : UInt16) (peer : Peer) : Descriptor where
  port := port
  bound := false
  recvTimeout := 0
  sendTimeout := 0
  accepted := []
  peer := peer

/-- The descriptor after a call of `::send`, which uses up a result. -/
def Descriptor.afterSend (d : Descriptor) (accepted : Bytes) : Descriptor :=
  { d with accepted, peer := { d.peer with sends := d.peer.sends.tail } }

/-- What `poll` reports about the shutdown pipe and the listener. -/
inductive PollResult where
  | failed
  | timedOut
  | ready (shutdown listener : Bool)
  deriving DecidableEq, Repr

/-- The options that `setTimeout` sets. -/
inductive TimeoutOption where
  | SO_RCVTIMEO
  | SO_SNDTIMEO
  deriving DecidableEq, Repr

/-- The answers to come, call by call. -/
structure Answers where
  socket : List (Option Fd) := []
  setsockopt : List Bool := []
  getsockname : List Bool := []
  close : List Bool := []
  bind : List (Option UInt16) := []
  listen : List Bool := []
  accept : List (Option (Fd × Peer)) := []
  connect : List (Option (UInt16 × Peer)) := []
  getaddrinfo : List (Option Bytes) := []
  poll : List PollResult := []

/-- The open descriptors, the ports that the program thinks are in use, and the answers to
    come; and a ledger that only the proofs look at, of the descriptors that `socket` and `accept`
    have returned and of those that `::close` has been called on. -/
structure World where
  descriptors : Fd → Option Descriptor
  portsInUse : Finset UInt16
  answers : Answers
  ledger : List (Entry Fd) := []

namespace World

/-- The world with other answers to come. -/
def next (w : World) (answers : Answers) : World := { w with answers }

/-- Change what the kernel keeps for a descriptor. -/
def set (w : World) (fd : Fd) (d : Option Descriptor) : World :=
  { w with descriptors := Function.update w.descriptors fd d }

/-- Enter something in the ledger. -/
def book (w : World) (entry : Entry Fd) : World := { w with ledger := w.ledger ++ [entry] }

def socket (w : World) : Option Fd × World :=
  let answer := w.answers.socket.headD none
  let w' := w.next { w.answers with socket := w.answers.socket.tail }
  match answer with
  | none => (none, w')
  | some fd =>
    if (w.descriptors fd).isNone then
      (some fd, (w'.set fd (some (.fresh 0 .absent))).book (.opened fd))
    else (none, w')

/-- `pipe`, when it has opened these two ends. -/
def pipe (w : World) (fds : Fd × Fd) : World :=
  let w := (w.set fds.1 (some (.fresh 0 .absent))).book (.opened fds.1)
  (w.set fds.2 (some (.fresh 0 .absent))).book (.opened fds.2)

/-- `setsockopt` with `SO_REUSEADDR`. -/
def setReuseaddr (w : World) : Bool × World :=
  (w.answers.setsockopt.headD true,
    w.next { w.answers with setsockopt := w.answers.setsockopt.tail })

/-- `setsockopt` with a time-out, which refuses a `timeval` that is not normalised. -/
def setsockopt (w : World) (fd : Fd) (option : TimeoutOption) (sec usec : ℕ) : Bool × World :=
  let answer := w.answers.setsockopt.headD true
  let w' := w.next { w.answers with setsockopt := w.answers.setsockopt.tail }
  match w.descriptors fd with
  | none => (false, w')
  | some d =>
    if answer ∧ usec < 1000000 then
      match option with
      | .SO_RCVTIMEO => (true, w'.set fd (some { d with recvTimeout := sec * 1000000 + usec }))
      | .SO_SNDTIMEO => (true, w'.set fd (some { d with sendTimeout := sec * 1000000 + usec }))
    else (false, w')

/-- The local port of a descriptor. -/
def getsockname (w : World) (fd : Fd) : Option UInt16 × World :=
  let answer := w.answers.getsockname.headD true
  let w' := w.next { w.answers with getsockname := w.answers.getsockname.tail }
  (if answer then (w.descriptors fd).map (·.port) else none, w')

def close (w : World) (fd : Fd) : Bool × World :=
  let answer := w.answers.close.headD true
  let w' := (w.next { w.answers with close := w.answers.close.tail }).book (.closed fd)
  if answer ∧ (w.descriptors fd).isSome then (true, w'.set fd none) else (false, w')

/-- A descriptor that has a port already is refused; port 0 asks for any other port. -/
def bind (w : World) (fd : Fd) (port : UInt16) : Bool × World :=
  let answer := w.answers.bind.headD none
  let w' := w.next { w.answers with bind := w.answers.bind.tail }
  match answer, w.descriptors fd with
  | some free, some d =>
    if d.port = 0 ∧ (port ≠ 0 ∨ free ≠ 0) then
      (true, w'.set fd (some { d with port := if port = 0 then free else port, bound := true }))
    else (false, w')
  | _, _ => (false, w')

def listen (w : World) (_fd : Fd) (_backlog : ℤ) : Bool × World :=
  (w.answers.listen.headD true,
    w.next { w.answers with listen := w.answers.listen.tail })

/-- The new descriptor has the listener's port. -/
def accept (w : World) (fd : Fd) : Option Fd × World :=
  let answer := w.answers.accept.headD none
  let w' := w.next { w.answers with accept := w.answers.accept.tail }
  match answer, w.descriptors fd with
  | some (fd', peer), some d =>
    if (w.descriptors fd').isNone then
      (some fd', (w'.set fd' (some (.fresh d.port peer))).book (.opened fd'))
    else (none, w')
  | _, _ => (none, w')

/-- A descriptor with no port gets one that the kernel picks.  Who answers at the address is part
    of the answer. -/
def connect (w : World) (fd : Fd) (_ip : Bytes) (_port : UInt16) : Bool × World :=
  let answer := w.answers.connect.headD none
  let w' := w.next { w.answers with connect := w.answers.connect.tail }
  match answer, w.descriptors fd with
  | some (free, peer), some d =>
    (true, w'.set fd (some { d with port := if d.port = 0 then free else d.port, peer }))
  | _, _ => (false, w')

/-- The text of the first address found, if any. -/
def getaddrinfo (w : World) (_domain : Bytes) (_port : UInt16) : Option Bytes × World :=
  (w.answers.getaddrinfo.headD none,
    w.next { w.answers with getaddrinfo := w.answers.getaddrinfo.tail })

def poll (w : World) : Option PollResult × World :=
  (w.answers.poll.head?, w.next { w.answers with poll := w.answers.poll.tail })

/-- `::send` of the bytes offered.  The kernel takes at least one of them, if there is one, and
    no more than are there. -/
def send (w : World) (fd : Fd) (data : Bytes) : SendResult × World :=
  match w.descriptors fd with
  | none => (.failed, w)
  | some d =>
    let peer := { d.peer with sends := d.peer.sends.tail }
    match d.peer.sends.head with
    | .sent n =>
      let n := min (max n 1) data.length
      (.sent n, w.set fd (some { d with peer, accepted := d.accepted ++ data.take n }))
    | result => (result, w.set fd (some { d with peer }))

/-! ### What the calls change -/

@[simp] theorem set_descriptors (w : World) (fd : Fd) (d : Option Descriptor) :
    (w.set fd d).descriptors = Function.update w.descriptors fd d := rfl

/-- `socket` opens a descriptor that was not open, or changes nothing. -/
theorem socket_spec (w : World) : w.socket.2.portsInUse = w.portsInUse ∧
    ((w.socket.1 = none ∧ w.socket.2.descriptors = w.descriptors) ∨
      ∃ fd, w.socket.1 = some fd ∧ w.descriptors fd = none ∧
        w.socket.2.descriptors
          = Function.update w.descriptors fd (some (.fresh 0 .absent))) := by
  simp only [socket]
  cases w.answers.socket.headD none with
  | none => exact ⟨rfl, .inl ⟨rfl, rfl⟩⟩
  | some fd =>
    by_cases hopen : (w.descriptors fd).isNone = true
    · dsimp only
      rw [if_pos hopen]
      exact ⟨rfl, .inr ⟨fd, rfl, Option.isNone_iff_eq_none.mp hopen, rfl⟩⟩
    · dsimp only
      rw [if_neg hopen]
      exact ⟨rfl, .inl ⟨rfl, rfl⟩⟩

/-- An answer that is there comes from the list. -/
theorem mem_of_headD_none {α : Type} {answers : List (Option α)} {a : α}
    (h : answers.headD none = some a) : some a ∈ answers := by
  cases answers with
  | nil => cases h
  | cons answer rest =>
    rw [← h]
    exact List.mem_cons_self ..

/-- `accept` opens a descriptor with the listener's port, or changes nothing. -/
theorem accept_spec (w : World) (fd : Fd) : (w.accept fd).2.portsInUse = w.portsInUse ∧
    (((w.accept fd).1 = none ∧ (w.accept fd).2.descriptors = w.descriptors) ∨
      ∃ fd' d peer, (w.accept fd).1 = some fd' ∧ w.descriptors fd = some d ∧
        w.descriptors fd' = none ∧ some (fd', peer) ∈ w.answers.accept ∧
        (w.accept fd).2.descriptors
          = Function.update w.descriptors fd' (some (.fresh d.port peer))) := by
  simp only [accept]
  cases hanswer : w.answers.accept.headD none with
  | none => exact ⟨rfl, .inl ⟨rfl, rfl⟩⟩
  | some answer =>
    obtain ⟨fd', peer⟩ := answer
    cases hd : w.descriptors fd with
    | none => exact ⟨rfl, .inl ⟨rfl, rfl⟩⟩
    | some d =>
      -- A number that is open already is no answer of the kernel.
      by_cases hopen : (w.descriptors fd').isNone = true
      · dsimp only
        rw [if_pos hopen]
        exact ⟨rfl, .inr ⟨fd', d, peer, rfl, rfl, Option.isNone_iff_eq_none.mp hopen,
          mem_of_headD_none hanswer, rfl⟩⟩
      · dsimp only
        rw [if_neg hopen]
        exact ⟨rfl, .inl ⟨rfl, rfl⟩⟩

/-- `connect` changes the port of a descriptor that has none, or nothing about ports. -/
theorem connect_spec (w : World) (fd : Fd) (ip : Bytes) (remote : UInt16) :
    (w.connect fd ip remote).2.portsInUse = w.portsInUse ∧
    ((w.connect fd ip remote).2.descriptors = w.descriptors ∨
      ∃ d port peer, w.descriptors fd = some d ∧ (d.port ≠ 0 → port = d.port) ∧
        (∃ free, some (free, peer) ∈ w.answers.connect) ∧
        (w.connect fd ip remote).2.descriptors
          = Function.update w.descriptors fd (some { d with port, peer })) := by
  simp only [connect]
  cases hanswer : w.answers.connect.headD none with
  | none => exact ⟨rfl, .inl rfl⟩
  | some answer =>
    obtain ⟨free, peer⟩ := answer
    cases hd : w.descriptors fd with
    | none => exact ⟨rfl, .inl rfl⟩
    | some d =>
      exact ⟨rfl, .inr ⟨d, _, peer, rfl, fun hport => if_neg hport,
        ⟨free, mem_of_headD_none hanswer⟩, rfl⟩⟩

/-- `setsockopt` changes a time-out, or nothing. -/
theorem setsockopt_spec (w : World) (fd : Fd) (option : TimeoutOption) (sec usec : ℕ) :
    (w.setsockopt fd option sec usec).2.portsInUse = w.portsInUse ∧
    ((w.setsockopt fd option sec usec).2.descriptors = w.descriptors ∨
      ∃ d r s, w.descriptors fd = some d ∧
        (w.setsockopt fd option sec usec).2.descriptors = Function.update w.descriptors fd
          (some { d with recvTimeout := r, sendTimeout := s })) := by
  simp only [setsockopt]
  cases hd : w.descriptors fd with
  | none => exact ⟨rfl, .inl rfl⟩
  | some d =>
    -- The kernel takes a `timeval` only if its microseconds make less than a second.
    by_cases hok : w.answers.setsockopt.headD true = true ∧ usec < 1000000
    · dsimp only
      rw [if_pos hok]
      cases option with
      | SO_RCVTIMEO => exact ⟨rfl, .inr ⟨d, _, _, rfl, rfl⟩⟩
      | SO_SNDTIMEO => exact ⟨rfl, .inr ⟨d, _, _, rfl, rfl⟩⟩
    · dsimp only
      rw [if_neg hok]
      exact ⟨rfl, .inl rfl⟩

/-- `bind` gives a port to a descriptor that has none, the one asked for unless that is 0, or
    changes nothing. -/
theorem bind_spec (w : World) (fd : Fd) (port : UInt16) :
    (w.bind fd port).2.portsInUse = w.portsInUse ∧
    (((w.bind fd port).1 = false ∧ (w.bind fd port).2.descriptors = w.descriptors) ∨
      ∃ d port', (w.bind fd port).1 = true ∧ w.descriptors fd = some d ∧ d.port = 0 ∧
        port' ≠ 0 ∧ (port ≠ 0 → port' = port) ∧ (w.bind fd port).2.descriptors
          = Function.update w.descriptors fd (some { d with port := port', bound := true })) := by
  simp only [bind]
  cases w.answers.bind.headD none with
  | none => exact ⟨rfl, .inl ⟨rfl, rfl⟩⟩
  | some free =>
    cases hd : w.descriptors fd with
    | none => exact ⟨rfl, .inl ⟨rfl, rfl⟩⟩
    | some d =>
      -- A descriptor is bound once, and port 0 asks the kernel for a free one.
      by_cases hok : d.port = 0 ∧ (port ≠ 0 ∨ free ≠ 0)
      · dsimp only
        rw [if_pos hok]
        refine ⟨rfl, .inr ⟨d, if port = 0 then free else port, rfl, rfl, hok.1, ?_, ?_, rfl⟩⟩
        · by_cases hport : port = 0
          · rw [if_pos hport]
            exact hok.2.resolve_left fun h => h hport
          · rw [if_neg hport]
            exact hport
        · exact fun hport => if_neg hport
      · dsimp only
        rw [if_neg hok]
        exact ⟨rfl, .inl ⟨rfl, rfl⟩⟩

/-- `close` closes an open descriptor, or changes nothing. -/
theorem close_spec (w : World) (fd : Fd) : (w.close fd).2.portsInUse = w.portsInUse ∧
    (((w.close fd).1 = false ∧ (w.close fd).2.descriptors = w.descriptors) ∨
      ((w.close fd).1 = true ∧ (∃ d, w.descriptors fd = some d) ∧
        (w.close fd).2.descriptors = Function.update w.descriptors fd none)) := by
  simp only [close]
  by_cases hok : w.answers.close.headD true = true ∧ (w.descriptors fd).isSome = true
  · rw [if_pos hok]
    exact ⟨rfl, .inr ⟨rfl, Option.isSome_iff_exists.mp hok.2, rfl⟩⟩
  · rw [if_neg hok]
    exact ⟨rfl, .inl ⟨rfl, rfl⟩⟩

/-- `getsockname` changes nothing, and reports the port of an open descriptor or fails. -/
theorem getsockname_spec (w : World) (fd : Fd) :
    (w.getsockname fd).2.portsInUse = w.portsInUse ∧
      (w.getsockname fd).2.descriptors = w.descriptors ∧
      (∀ port, (w.getsockname fd).1 = some port →
        ∃ d, w.descriptors fd = some d ∧ d.port = port) := by
  refine ⟨rfl, rfl, ?_⟩
  intro port h
  simp only [getsockname] at h
  split at h
  · exact Option.map_eq_some_iff.mp h
  · cases h

/-- What is left of an end of a connection after some calls of `::send`. -/
structure SentOver (d d' : Descriptor) : Prop where
  same : d' = { d with accepted := d'.accepted, peer := { d.peer with sends := d'.peer.sends } }
  sends : ∃ n, d'.peer.sends = d.peer.sends.drop n

/-- The world after some calls of `::send` on a descriptor. -/
structure Sent (fd : Fd) (w w' : World) : Prop where
  answers : w'.answers = w.answers
  ledger : w'.ledger = w.ledger
  portsInUse : w'.portsInUse = w.portsInUse
  other : ∀ fd', fd' ≠ fd → w'.descriptors fd' = w.descriptors fd'
  closed : w.descriptors fd = none → w'.descriptors fd = none
  opened : ∀ d, w.descriptors fd = some d → ∃ d', w'.descriptors fd = some d' ∧ SentOver d d'

theorem Sent.refl (fd : Fd) (w : World) : Sent fd w w :=
  ⟨rfl, rfl, rfl, fun _ _ => rfl, fun h => h, fun d hd => ⟨d, hd, rfl, 0, rfl⟩⟩

theorem Sent.trans {fd : Fd} {w w' w'' : World} (h : Sent fd w w') (h' : Sent fd w' w'') :
    Sent fd w w'' := by
  refine ⟨h'.answers.trans h.answers, h'.ledger.trans h.ledger,
    h'.portsInUse.trans h.portsInUse, ?_, ?_, ?_⟩
  · intro fd' hne
    rw [h'.other fd' hne, h.other fd' hne]
  · exact fun hnone => h'.closed (h.closed hnone)
  · intro d hd
    obtain ⟨d', hd', hsame, n, hsends⟩ := h.opened d hd
    obtain ⟨d'', hd'', hsame', n', hsends'⟩ := h'.opened d' hd'
    refine ⟨d'', hd'', ?_, n' + n, ?_⟩
    · rw [hsame', hsame]
    · rw [hsends', hsends, Stream'.drop_drop, Nat.add_comm]

/-- One call of `::send`. -/
theorem sent_set {fd : Fd} {w : World} {d : Descriptor} (hd : w.descriptors fd = some d)
    (accepted : Bytes) : Sent fd w (w.set fd (some (d.afterSend accepted))) := by
  refine ⟨rfl, rfl, rfl, ?_, ?_, ?_⟩
  · intro fd' hne
    exact Function.update_of_ne hne ..
  · intro hnone
    rw [hd] at hnone
    cases hnone
  · intro d₀ hd₀
    rw [hd] at hd₀
    cases hd₀
    exact ⟨_, Function.update_self .., rfl, 1, rfl⟩

/-- `::send` on an open descriptor, case by case. -/
theorem send_some {w : World} {fd : Fd} {d : Descriptor} (hd : w.descriptors fd = some d)
    (data : Bytes) :
    ∃ accepted, (w.send fd data).2 = w.set fd (some (d.afterSend accepted)) ∧
      ((∃ n m, d.peer.sends.head = .sent m ∧ (w.send fd data).1 = .sent n ∧ n ≤ data.length ∧
          (data ≠ [] → 1 ≤ n) ∧ accepted = d.accepted ++ data.take n) ∨
        (∀ m, d.peer.sends.head ≠ .sent m) ∧ (w.send fd data).1 = d.peer.sends.head ∧
          accepted = d.accepted) := by
  unfold send
  rw [hd]
  dsimp only
  cases hhead : d.peer.sends.head with
  | sent m =>
    -- The peer takes at least one byte of a message that has any, and never more than there are.
    refine ⟨_, rfl, .inl ⟨_, m, rfl, rfl, Nat.min_le_right .., fun hne => ?_, rfl⟩⟩
    have hlen := List.length_pos_of_ne_nil hne
    omega
  | failed => exact ⟨_, rfl, .inr ⟨nofun, rfl, rfl⟩⟩
  | reset => exact ⟨_, rfl, .inr ⟨nofun, rfl, rfl⟩⟩
  | blocked => exact ⟨_, rfl, .inr ⟨nofun, rfl, rfl⟩⟩

/-- On a closed one it fails and changes nothing. -/
theorem send_none {w : World} {fd : Fd} (hd : w.descriptors fd = none) (data : Bytes) :
    w.send fd data = (.failed, w) := by
  unfold send
  rw [hd]

/-- **`::send`** changes nothing but what its descriptor has sent; it fails, takes some of what is
    offered, or is one of the calls to come that the other end spoils. -/
theorem send_spec (w : World) (fd : Fd) (data : Bytes) :
    Sent fd w (w.send fd data).2 ∧
    ((w.send fd data).1 = .failed ∨
      (∃ n, (w.send fd data).1 = .sent n ∧ n ≤ data.length ∧ (data ≠ [] → 1 ≤ n)) ∨
      (∀ n, (w.send fd data).1 ≠ .sent n) ∧
        ∃ d, w.descriptors fd = some d ∧ (w.send fd data).1 ∈ d.peer.sends) := by
  cases hd : w.descriptors fd with
  | none =>
    rw [send_none hd]
    exact ⟨Sent.refl fd w, .inl rfl⟩
  | some d =>
    obtain ⟨accepted, hworld, hresult⟩ := send_some hd data
    rw [hworld]
    refine ⟨sent_set hd accepted, .inr ?_⟩
    obtain ⟨n, m, -, hsent, hn, hone, -⟩ | ⟨hother, hhead, -⟩ := hresult
    · exact .inl ⟨n, hsent, hn, hone⟩
    · exact .inr ⟨fun n hn => hother n (hhead.symm.trans hn), d, rfl, 0, hhead⟩

end World

/-- `inet_pton` accepts dotted quads with no needless zeros. -/
def inetPton (ip : Bytes) : Bool :=
  let parts := ip.splitOn 46
  parts.length = 4 ∧ parts.all fun part =>
    part ≠ [] ∧ part.all isdigit ∧ decimal part < 256 ∧ (part.length = 1 ∨ part.head? ≠ some 48)

end Evaluation
