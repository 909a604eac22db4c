import Evaluation.Lib.Register
import Evaluation.TCPSocket

namespace Evaluation

open Lib

/-!
# The ports in use

`TCPSocket` keeps a set of ports so that `bind` can refuse one that is taken although
`SO_REUSEADDR` lets the kernel hand it out again.  The set is a register (`Lib.Registers`) of
the ports that open descriptors got by a successful `bind`: `bind` adds the port it was asked
for, and `close` takes out the port that `getsockname` reports.

* `SocketOp.run` — the operations on any number of sockets;
* `SocketOp.Regular` — the steps that keep set and sockets together: no `bind` to port 0
  succeeds, a bound descriptor is closed with both calls of `close` succeeding or both
  failing, and one that was not bound reports no port that another one holds;
* `booked_run_iff` — one step keeps the set exact if and only if it is regular;
* `portsInUse_exact` — hence so does every run of regular steps.
-/

/-! ### Operations -/

/-- Any number of sockets; where no object lives stands one with no descriptor. -/
structure Sockets where
  world : World
  objects : ℕ → TCPSocket

/-- The operations; `moveConstruct i j` and `moveAssign i j` move the object `j` to `i`, and
    `accept i j` makes the object `j` of what `i` accepts. -/
inductive SocketOp where
  | create (i : ℕ)
  | bind (i : ℕ) (port : UInt16)
  | listen (i : ℕ) (backlog : ℤ)
  | accept (i j : ℕ)
  | connect (i : ℕ) (ip : Bytes) (port : UInt16)
  | setTimeout (i : ℕ) (timeoutMs : UInt32) (option : TimeoutOption)
  | close (i : ℕ)
  | moveConstruct (i j : ℕ)
  | moveAssign (i j : ℕ)
  | destroy (i : ℕ)
  deriving DecidableEq, Repr

namespace SocketOp

/-- One operation.  A new object is made only where none lives. -/
def run (op : SocketOp) (s : Sockets) : Sockets :=
  match op with
  | create i =>
    let r := (s.objects i).create s.world
    ⟨r.2.2, Function.update s.objects i r.2.1⟩
  | bind i port => ⟨((s.objects i).bind port s.world).2, s.objects⟩
  | listen i backlog => ⟨((s.objects i).listen backlog s.world).2, s.objects⟩
  | accept i j =>
    -- What `accept` returns is a new object, so `j` must not be in use.
    if (s.objects j).fd.isSome then s
    else
      let r := (s.objects i).accept s.world
      ⟨r.2, Function.update s.objects j (r.1.getD {})⟩
  | connect i ip port => ⟨((s.objects i).connect ip port s.world).2, s.objects⟩
  | setTimeout i timeoutMs option =>
    let r := (s.objects i).setTimeout timeoutMs option s.world
    ⟨r.2.2, Function.update s.objects i r.2.1⟩
  | close i =>
    let r := (s.objects i).close s.world
    ⟨r.2.2, Function.update s.objects i r.2.1⟩
  | moveConstruct i j =>
    if (s.objects i).fd.isSome then s
    else
      let r := (s.objects j).moveConstruct
      ⟨s.world, Function.update (Function.update s.objects j r.2) i r.1⟩
  | moveAssign i j =>
    if i = j then
      let r := (s.objects i).moveAssignSelf s.world
      ⟨r.2, Function.update s.objects i r.1⟩
    else
      let r := (s.objects i).moveAssign (s.objects j) s.world
      ⟨r.2.2, Function.update (Function.update s.objects j r.2.1) i r.1⟩
  | destroy i => ⟨(s.objects i).destroy s.world, Function.update s.objects i {}⟩

/-- A run of operations. -/
def runAll (ops : List SocketOp) (s : Sockets) : Sockets := ops.foldl (fun s op => op.run s) s

end SocketOp

/-! ### The register of ports -/

/-- The port that a descriptor got by a successful `bind`. -/
def Descriptor.held (d : Descriptor) : Option UInt16 := if d.bound then some d.port else none

/-- The port that an open descriptor got by a successful `bind`. -/
def World.held (w : World) (fd : Fd) : Option UInt16 := (w.descriptors fd).bind Descriptor.held

/-- **The set is exact**: it holds the ports that open descriptors got by a successful `bind`,
    each of which has one holder and is not 0. -/
structure Booked (w : World) : Prop where
  registers : Registers w.held w.portsInUse
  ne_zero : ∀ fd port, w.held fd = some port → port ≠ 0

/-- Closing a descriptor is regular when the set changes as the descriptors do. -/
def CloseRegular (w : World) (fd : Fd) : Prop :=
  match w.held fd with
  | some _ => (w.getsockname fd).1.isSome = (w.close fd).1
  | none => ∀ port, (w.getsockname fd).1 = some port → ∀ fd', w.held fd' ≠ some port

/-- The steps that keep the set exact. -/
def SocketOp.Regular (op : SocketOp) (s : Sockets) : Prop :=
  match op with
  | bind i port => ∀ fd, (s.objects i).fd = some fd → port = 0 → (s.world.bind fd port).1 = false
  | close i | moveAssign i _ | destroy i =>
    ∀ fd, (s.objects i).fd = some fd → CloseRegular s.world fd
  | _ => True

/-- The ports that are held are a matter of the descriptors. -/
theorem held_of_descriptors {w w' : World} (h : w'.descriptors = w.descriptors) :
    w'.held = w.held := by
  funext fd
  rw [World.held, World.held, h]

/-- A descriptor that changes changes the port that it holds. -/
theorem held_of_update {w w' : World} {fd : Fd} {d : Option Descriptor}
    (h : w'.descriptors = Function.update w.descriptors fd d) :
    w'.held = Function.update w.held fd (d.bind Descriptor.held) := by
  funext fd'
  rw [World.held, h]
  by_cases hfd : fd' = fd
  · rw [hfd, Function.update_self, Function.update_self]
  · rw [Function.update_of_ne hfd, Function.update_of_ne hfd, World.held]

/-- A change of a descriptor that leaves alone what it holds. -/
theorem held_of_update_same {w w' : World} {fd : Fd} {d : Option Descriptor}
    (h : w'.descriptors = Function.update w.descriptors fd d)
    (hd : d.bind Descriptor.held = w.held fd) : w'.held = w.held := by
  rw [held_of_update h, hd, Function.update_eq_self]

/-- `Booked` looks only at what is held and at the set. -/
theorem booked_congr {w w' : World} (hheld : w'.held = w.held)
    (hports : w'.portsInUse = w.portsInUse) : Booked w' ↔ Booked w := by
  constructor
  · rintro ⟨hreg, hne⟩
    rw [hheld, hports] at hreg
    rw [hheld] at hne
    exact ⟨hreg, hne⟩
  · rintro ⟨hreg, hne⟩
    refine ⟨?_, ?_⟩
    · rw [hheld, hports]
      exact hreg
    · rw [hheld]
      exact hne

/-! ### One method -/

/-- A new socket changes nothing in the book. -/
theorem booked_create (sock : TCPSocket) (w : World) :
    Booked (sock.create w).2.2 ↔ Booked w := by
  obtain ⟨hports, hcases⟩ := w.socket_spec
  unfold TCPSocket.create
  rcases hsock : w.socket with ⟨fd, w'⟩
  rw [hsock] at hports hcases
  rcases hcases with ⟨rfl, hsame⟩ | ⟨fd, rfl, hclosed, hopen⟩
  · exact booked_congr (held_of_descriptors hsame) hports
  · -- The descriptor was closed, and the new one is not bound.
    refine booked_congr (held_of_update_same hopen ?_) hports
    rw [World.held, hclosed]
    rfl

/-- Nor does a client that is accepted. -/
theorem booked_accept (sock : TCPSocket) (w : World) : Booked (sock.accept w).2 ↔ Booked w := by
  unfold TCPSocket.accept
  cases sock.fd with
  | none => exact Iff.rfl
  | some fd =>
    obtain ⟨hports, ⟨-, hsame⟩ | ⟨fd', d, peer, -, -, hclosed, -, hopen⟩⟩ := w.accept_spec fd
    · exact booked_congr (held_of_descriptors hsame) hports
    · -- The new descriptor has the listener's port, but no `bind` gave it.
      refine booked_congr (held_of_update_same hopen ?_) hports
      rw [World.held, hclosed]
      rfl

/-- Connecting keeps the book exact. -/
theorem booked_connect (sock : TCPSocket) (ip : Bytes) (port : UInt16) (w : World)
    (hw : Booked w) : Booked (sock.connect ip port w).2 := by
  unfold TCPSocket.connect
  cases sock.fd with
  | none => exact hw
  | some fd =>
    by_cases hip : inetPton (TCPSocket.cString ip) = true
    · simp only [hip, if_true]
      obtain ⟨hports, hsame | ⟨d, own, peer, hd, hport, -, hset⟩⟩ :=
        w.connect_spec fd (TCPSocket.cString ip) port
      · exact (booked_congr (held_of_descriptors hsame) hports).mpr hw
      · refine (booked_congr (held_of_update_same hset ?_) hports).mpr hw
        rw [World.held, hd]
        show Descriptor.held _ = Descriptor.held d
        unfold Descriptor.held
        cases hbound : d.bound with
        | false => rfl
        | true =>
          -- A bound descriptor has a port, so the kernel picks none.
          have hne : d.port ≠ 0 := hw.ne_zero fd d.port (by
            rw [World.held, hd]
            exact if_pos hbound)
          simp only [hport hne]
    · simp only [hip]
      exact hw

/-- A time-out changes nothing in the book. -/
theorem booked_setTimeout (sock : TCPSocket) (timeoutMs : UInt32) (option : TimeoutOption)
    (w : World) : Booked (sock.setTimeout timeoutMs option w).2.2 ↔ Booked w := by
  unfold TCPSocket.setTimeout
  cases sock.fd with
  | none => exact Iff.rfl
  | some fd =>
    dsimp only
    split
    · exact Iff.rfl
    · obtain ⟨hports, hdesc⟩ :=
        w.setsockopt_spec fd option (timeoutMs.toNat / 1000) (timeoutMs.toNat * 1000)
      have hbooked : Booked
          (w.setsockopt fd option (timeoutMs.toNat / 1000) (timeoutMs.toNat * 1000)).2
            ↔ Booked w := by
        rcases hdesc with hsame | ⟨d, r, s, hd, hset⟩
        · exact booked_congr (held_of_descriptors hsame) hports
        · -- A time-out is no part of what is held.
          refine booked_congr (held_of_update_same hset ?_) hports
          rw [World.held, hd]
          rfl
      split
      · cases option <;> exact hbooked
      · exact hbooked

/-- **`bind`** keeps the set exact unless it binds to port 0. -/
theorem booked_bind_iff (sock : TCPSocket) (port : UInt16) {w : World} (hw : Booked w) :
    Booked (sock.bind port w).2 ↔
      ∀ fd, sock.fd = some fd → port = 0 → (w.bind fd port).1 = false := by
  unfold TCPSocket.bind
  cases hfd : sock.fd with
  | none => exact iff_of_true hw fun fd h => by cases h
  | some fd =>
    simp only [Option.some.injEq, forall_eq']
    by_cases hin : port ∈ w.portsInUse
    · -- The port is in the set, so it is held, and not 0.
      obtain ⟨k, hk⟩ := (hw.registers.mem_iff port).mp hin
      rw [if_pos hin]
      exact iff_of_true hw fun hzero => absurd hzero (hw.ne_zero k port hk)
    rw [if_neg hin]
    obtain ⟨hports, ⟨hfail, hsame⟩ | ⟨d, port', hok, hd, hdport, hne, hport, hset⟩⟩ :=
      w.bind_spec fd port
    · simp only [hfail, Bool.false_eq_true, if_false, implies_true, iff_true]
      exact (booked_congr (held_of_descriptors hsame) hports).mpr hw
    · -- The kernel gives a port only to a descriptor that has none.
      have hfree : w.held fd = none := by
        rw [World.held, hd]
        refine if_neg fun hbound => ?_
        refine hw.ne_zero fd d.port ?_ hdport
        rw [World.held, hd]
        exact if_pos hbound
      have hheld : (w.bind fd port).2.held = Function.update w.held fd (some port') :=
        held_of_update hset
      simp only [hok, if_true, Bool.true_eq_false, imp_false]
      constructor
      · -- Binding to port 0 puts 0 into the set.
        rintro ⟨hreg, hnz⟩ rfl
        obtain ⟨k, hk⟩ := (hreg.mem_iff 0).mp (Finset.mem_insert_self _ _)
        exact hnz k 0 hk rfl
      · intro hzero
        obtain rfl := hport hzero
        have hreg := hw.registers.take hfree hin
        rw [← hheld, ← hports] at hreg
        refine ⟨hreg, ?_⟩
        intro k p hk
        have hk' : Function.update w.held fd (some port') k = some p := by
          rw [← hheld]
          exact hk
        -- The other descriptors hold what they held.
        by_cases hkfd : k = fd
        · rw [hkfd, Function.update_self] at hk'
          obtain rfl := Option.some.inj hk'
          exact hne
        · rw [Function.update_of_ne hkfd] at hk'
          exact hw.ne_zero k p hk'

/-- `close` takes out of the book the port that `getsockname` reports. -/
theorem forgetPort_portsInUse (fd : Fd) (w : World) :
    (TCPSocket.forgetPort fd w).portsInUse
      = (w.getsockname fd).1.elim w.portsInUse w.portsInUse.erase := by
  unfold TCPSocket.forgetPort
  rcases hname : w.getsockname fd with ⟨name, w'⟩
  have hports : w'.portsInUse = w.portsInUse := by
    have := (w.getsockname_spec fd).1
    rwa [hname] at this
  cases name with
  | none => exact hports
  | some port => exact congrArg (fun ports => ports.erase port) hports

/-- It does so before it touches a descriptor. -/
theorem forgetPort_descriptors (fd : Fd) (w : World) :
    (TCPSocket.forgetPort fd w).descriptors = w.descriptors := by
  unfold TCPSocket.forgetPort
  rcases hname : w.getsockname fd with ⟨name, w'⟩
  have hdesc : w'.descriptors = w.descriptors := by
    have := (w.getsockname_spec fd).2.1
    rwa [hname] at this
  cases name with
  | none => exact hdesc
  | some port => exact hdesc

/-- `::close` answers as it would have without the call of `getsockname`. -/
theorem forgetPort_close (fd : Fd) (w : World) :
    ((TCPSocket.forgetPort fd w).close fd).1 = (w.close fd).1 := by
  have hans : (TCPSocket.forgetPort fd w).answers.close = w.answers.close := by
    unfold TCPSocket.forgetPort
    rcases hname : w.getsockname fd with ⟨name, w'⟩
    have hans : (w.getsockname fd).2.answers.close = w.answers.close := rfl
    rw [hname] at hans
    cases name with
    | none => exact hans
    | some port => exact hans
  simp only [World.close, forgetPort_descriptors, hans]
  split <;> rfl

/-- What `close` makes of the set: the port that `getsockname` reports is gone. -/
theorem close_portsInUse {sock : TCPSocket} {fd : Fd} (hfd : sock.fd = some fd) (w : World) :
    (sock.close w).2.2.portsInUse
      = (w.getsockname fd).1.elim w.portsInUse w.portsInUse.erase := by
  rw [TCPSocket.close_world hfd, ← forgetPort_portsInUse]
  exact (World.close_spec _ fd).1

/-- What `close` makes of the holders: the descriptor is gone if `::close` succeeds. -/
theorem close_held {sock : TCPSocket} {fd : Fd} (hfd : sock.fd = some fd) (w : World) :
    (sock.close w).2.2.held
      = if (w.close fd).1 then Function.update w.held fd none else w.held := by
  rw [TCPSocket.close_world hfd, ← forgetPort_close,
    ← held_of_descriptors (forgetPort_descriptors fd w)]
  obtain ⟨-, ⟨hfail, hsame⟩ | ⟨hok, -, hset⟩⟩ := (TCPSocket.forgetPort fd w).close_spec fd
  · rw [hfail]
    exact held_of_descriptors hsame
  · rw [hok]
    exact held_of_update hset

/-- **`close`** keeps the set exact exactly when it is regular. -/
theorem booked_close_iff (sock : TCPSocket) {w : World} (hw : Booked w) :
    Booked (sock.close w).2.2 ↔ ∀ fd, sock.fd = some fd → CloseRegular w fd := by
  cases hfd : sock.fd with
  | none =>
    rw [TCPSocket.close_none hfd]
    exact iff_of_true hw fun fd h => by cases h
  | some fd =>
    have hports := close_portsInUse hfd w
    have hheld := close_held hfd w
    -- Whatever the two calls answer, no new port is held.
    have hne : ∀ k port, (sock.close w).2.2.held k = some port → port ≠ 0 := by
      intro k port hk
      rw [hheld] at hk
      split at hk
      · by_cases hkfd : k = fd
        · rw [hkfd, Function.update_self] at hk
          cases hk
        · rw [Function.update_of_ne hkfd] at hk
          exact hw.ne_zero k port hk
      · exact hw.ne_zero k port hk
    have hbooked : Booked (sock.close w).2.2 ↔
        Registers (sock.close w).2.2.held (sock.close w).2.2.portsInUse :=
      ⟨fun h => h.registers, fun h => ⟨h, hne⟩⟩
    simp only [Option.some.injEq, forall_eq']
    rw [hbooked, hports, hheld]
    unfold CloseRegular
    cases hk : w.held fd with
    | some port =>
      -- `getsockname` can only report the port that is held.
      have hname : ∀ q, (w.getsockname fd).1 = some q → q = port := by
        intro q hq
        obtain ⟨d, hd, rfl⟩ := (w.getsockname_spec fd).2.2 q hq
        rw [World.held, hd] at hk
        by_cases hbound : d.bound = true
        · exact Option.some.inj ((if_pos hbound).symm.trans hk)
        · cases (if_neg hbound).symm.trans hk
      dsimp only
      cases hq : (w.getsockname fd).1 with
      | none =>
        cases hc : (w.close fd).1 with
        | false => exact iff_of_true hw.registers rfl
        -- The port stays in the set, and nobody holds it any more.
        | true => exact iff_of_false (hw.registers.not_drop hk) (by decide)
      | some q =>
        obtain rfl := hname q hq
        cases hc : (w.close fd).1 with
        | false =>
          -- The port is gone from the set, and still held.
          refine iff_of_false ?_ Bool.noConfusion
          intro hreg
          exact (hw.registers.erase_iff q).mp hreg fd hk
        | true => exact iff_of_true (hw.registers.release hk) rfl
    | none =>
      -- Nothing was held, so whatever leaves the set must not be held either.
      have hkeep : (if (w.close fd).1 = true then Function.update w.held fd none else w.held)
          = w.held := by
        split
        · rw [← hk, Function.update_eq_self]
        · rfl
      rw [hkeep]
      dsimp only
      cases hq : (w.getsockname fd).1 with
      | none => exact iff_of_true hw.registers fun port h => by cases h
      | some q =>
        simp only [Option.some.injEq, forall_eq']
        exact hw.registers.erase_iff q

/-- A destructor keeps the book exact if and only if its `close` is regular. -/
theorem booked_destroy_iff (sock : TCPSocket) {w : World} (hw : Booked w) :
    Booked (sock.destroy w) ↔ ∀ fd, sock.fd = some fd → CloseRegular w fd := by
  unfold TCPSocket.destroy
  cases hfd : sock.fd with
  | none => exact iff_of_true hw fun fd h => by cases h
  | some fd =>
    rw [← hfd]
    have hopen : sock.fd.isSome = true := by
      rw [hfd]
      rfl
    rw [if_pos hopen]
    exact booked_close_iff sock hw

/-- Listening keeps the book exact. -/
theorem booked_listen (sock : TCPSocket) (backlog : ℤ) {w : World} (hw : Booked w) :
    Booked (sock.listen backlog w).2 := by
  unfold TCPSocket.listen
  cases sock.fd with
  | none => exact hw
  | some fd =>
    have hheld : (w.listen fd backlog).2.held = w.held := held_of_descriptors rfl
    exact (booked_congr hheld rfl).mpr hw

/-! ### Runs -/

/-- Both move assignments do to the world what the destructor of the target does. -/
theorem moveAssign_world (i j : ℕ) (s : Sockets) :
    ((SocketOp.moveAssign i j).run s).world = (s.objects i).destroy s.world := by
  unfold SocketOp.run TCPSocket.moveAssignSelf TCPSocket.moveAssign TCPSocket.destroy
  by_cases hij : i = j
  · dsimp only
    rw [if_pos hij]
    by_cases hopen : (s.objects i).fd.isSome = true
    · rw [if_pos hopen, if_pos hopen]
    · rw [if_neg hopen, if_neg hopen]
  · dsimp only
    rw [if_neg hij]
    by_cases hopen : (s.objects i).fd.isSome = true
    · rw [if_pos hopen, if_pos hopen]
    · rw [if_neg hopen, if_neg hopen]

/-- **One step** keeps the set exact if and only if it is regular. -/
theorem booked_run_iff (op : SocketOp) {s : Sockets} (hs : Booked s.world) :
    Booked (op.run s).world ↔ op.Regular s := by
  -- Of all members only `bind`, `close` and the destructor can make the register disagree.
  cases op with
  | create i => exact iff_of_true ((booked_create _ _).mpr hs) trivial
  | bind i port => exact booked_bind_iff (s.objects i) port hs
  | listen i backlog => exact iff_of_true (booked_listen (s.objects i) backlog hs) trivial
  | accept i j =>
    refine iff_of_true ?_ trivial
    unfold SocketOp.run
    by_cases hj : (s.objects j).fd.isSome = true
    · dsimp only
      rw [if_pos hj]
      exact hs
    · dsimp only
      rw [if_neg hj]
      exact (booked_accept _ _).mpr hs
  | connect i ip port => exact iff_of_true (booked_connect _ ip port _ hs) trivial
  | setTimeout i timeoutMs option =>
    exact iff_of_true ((booked_setTimeout _ timeoutMs option _).mpr hs) trivial
  | close i => exact booked_close_iff (s.objects i) hs
  | moveConstruct i j =>
    refine iff_of_true ?_ trivial
    unfold SocketOp.run
    by_cases hi : (s.objects i).fd.isSome = true
    · dsimp only
      rw [if_pos hi]
      exact hs
    · dsimp only
      rw [if_neg hi]
      exact hs
  | moveAssign i j =>
    show Booked ((SocketOp.moveAssign i j).run s).world ↔ _
    rw [moveAssign_world]
    exact booked_destroy_iff (s.objects i) hs
  | destroy i => exact booked_destroy_iff (s.objects i) hs

/-- Every step of the run is regular where it is taken. -/
def AllRegular (ops : List SocketOp) (s : Sockets) : Prop :=
  match ops with
  | [] => True
  | op :: ops => op.Regular s ∧ AllRegular ops (op.run s)

/-- Operations that are all regular keep the book exact. -/
theorem booked_runAll {ops : List SocketOp} {s : Sockets} (hs : Booked s.world)
    (hops : AllRegular ops s) : Booked (SocketOp.runAll ops s).world := by
  induction ops generalizing s with
  | nil => exact hs
  | cons op ops ih => exact ih ((booked_run_iff op hs).mpr hops.1) hops.2

/-- A register of ports is exact, and so is the check that `bind` makes. -/
theorem Booked.exact {w : World} (hw : Booked w) :
    (∀ port, port ∈ w.portsInUse ↔ ∃ fd, w.held fd = some port) ∧
      ∀ (sock : TCPSocket) (fd : Fd) (port : UInt16), sock.fd = some fd →
        ((∃ fd', w.held fd' = some port) → sock.bind port w = (false, w)) ∧
        ((¬ ∃ fd', w.held fd' = some port) → (sock.bind port w).1 = (w.bind fd port).1) := by
  refine ⟨hw.registers.mem_iff, ?_⟩
  intro sock fd port hfd
  unfold TCPSocket.bind
  rw [hfd]
  dsimp only
  constructor
  · -- The early exit of `bind`.
    intro hheld
    exact if_pos ((hw.registers.mem_iff port).mpr hheld)
  · -- Past it, what `::bind` says is what is returned.
    intro hfree
    rw [if_neg fun hin => hfree ((hw.registers.mem_iff port).mp hin)]
    cases (w.bind fd port).1 with
    | false => rfl
    | true => rfl

/-- **The ports in use** are those that open sockets got by a successful `bind`, after every run
    of regular steps from a start where nothing is bound; so `bind` refuses a port on its own
    account exactly when an open socket holds it. -/
theorem portsInUse_exact {s : Sockets} (hports : s.world.portsInUse = ∅)
    (hheld : ∀ fd, s.world.held fd = none) {ops : List SocketOp} (hops : AllRegular ops s) :
    (∀ port, port ∈ (SocketOp.runAll ops s).world.portsInUse ↔
      ∃ fd, (SocketOp.runAll ops s).world.held fd = some port) ∧
    ∀ (sock : TCPSocket) (fd : Fd) (port : UInt16), sock.fd = some fd →
      ((∃ fd', (SocketOp.runAll ops s).world.held fd' = some port) →
        sock.bind port (SocketOp.runAll ops s).world
          = (false, (SocketOp.runAll ops s).world)) ∧
      ((¬ ∃ fd', (SocketOp.runAll ops s).world.held fd' = some port) →
        (sock.bind port (SocketOp.runAll ops s).world).1
          = ((SocketOp.runAll ops s).world.bind fd port).1) := by
  -- No port is registered and none is held, so they agree.
  have hstart : Booked s.world := by
    have hnone : s.world.held = fun _ => none := funext hheld
    refine ⟨?_, ?_⟩
    · rw [hnone, hports]
      exact Registers.empty
    · intro fd port h
      rw [hheld fd] at h
      cases h
  exact (booked_runAll hstart hops).exact

/-- A start with nothing open, where descriptors 3 and 4 are the next ones. -/
def acceptOneStart : Sockets where
  world :=
    { descriptors := fun _ => none
      portsInUse := ∅
      answers := { socket := [some 3], bind := [some 0], accept := [some (4, .absent)] } }
  objects := fun _ => {}

/-- A listener on port 8080 that goes away again. -/
theorem portsInUse_exact_listener :
    8080 ∈ (SocketOp.runAll [.create 0, .bind 0 8080, .listen 0 10, .destroy 0]
        acceptOneStart).world.portsInUse ↔
      ∃ fd, (SocketOp.runAll [.create 0, .bind 0 8080, .listen 0 10, .destroy 0]
        acceptOneStart).world.held fd = some 8080 := by
  have hregular :
      AllRegular [.create 0, .bind 0 8080, .listen 0 10, .destroy 0] acceptOneStart := by
    refine ⟨trivial, ?_, trivial, ?_, trivial⟩
    · intro fd _ hport
      exact absurd hport (by decide)
    · intro fd hfd
      obtain rfl : 3 = fd := Option.some.inj hfd
      exact rfl
  exact (portsInUse_exact rfl (fun _ => rfl) hregular).1 8080

/-- The listener accepts a connection; closing that connection takes port 8080 out of the set,
    although descriptor 3 still holds it. -/
theorem portsInUse_exact_counterexample :
    (acceptOneStart.world.portsInUse = ∅ ∧ ∀ fd, acceptOneStart.world.held fd = none) ∧
      ¬ ∀ port, port ∈ (SocketOp.runAll [.create 0, .bind 0 8080, .listen 0 10, .accept 0 1,
          .close 1] acceptOneStart).world.portsInUse ↔
        ∃ fd, (SocketOp.runAll [.create 0, .bind 0 8080, .listen 0 10, .accept 0 1,
          .close 1] acceptOneStart).world.held fd = some port := by
  refine ⟨⟨rfl, fun _ => rfl⟩, ?_⟩
  intro h
  have hin := (h 8080).mpr ⟨3, rfl⟩
  exact absurd hin (by decide)

end Evaluation
