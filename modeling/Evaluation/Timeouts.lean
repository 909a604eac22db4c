import Evaluation.Ownership

namespace Evaluation

open Lib

/-!
# Time-outs

`TCPSocket` remembers the time-outs that it has set, and a second call with the value that it
remembers returns early.  `setTimeout` splits the milliseconds into seconds and microseconds, but
the microseconds are those of the whole value, and the kernel refuses a `timeval` with a second or
more of them.

* `timeoutSet_iff` — a time-out is set exactly if and only if it is shorter than a second, or is
  the one remembered;
* `TimeoutsAgree` — what the objects remember is what is in force, and `timeoutsAgree_run` — every
  operation keeps this;
* `timeouts_agree` — hence it holds throughout every run, and a time-out that `setTimeout` reports
  as set is in force.
-/

/-- A time-out in force for a descriptor, in microseconds. -/
def Descriptor.timeout (d : Descriptor) : TimeoutOption → ℕ
  | .SO_RCVTIMEO => d.recvTimeout
  | .SO_SNDTIMEO => d.sendTimeout

/-- The time-outs in force for an open descriptor. -/
def World.timeouts (w : World) (fd : Fd) : Option (TimeoutOption → ℕ) :=
  (w.descriptors fd).map Descriptor.timeout

namespace TCPSocket

/-- A time-out that the object remembers, in milliseconds. -/
def remembered (sock : TCPSocket) : TimeoutOption → UInt32
  | .SO_RCVTIMEO => sock.recvTimeout
  | .SO_SNDTIMEO => sock.sendTimeout

/-- What `setTimeout` writes into the object. -/
def remember (sock : TCPSocket) (option : TimeoutOption) (timeoutMs : UInt32) : TCPSocket :=
  match option with
  | .SO_RCVTIMEO => { sock with recvTimeout := timeoutMs }
  | .SO_SNDTIMEO => { sock with sendTimeout := timeoutMs }

/-- What the object remembers is in force. -/
def Agrees (sock : TCPSocket) (fd : Fd) (w : World) : Prop :=
  w.timeouts fd = some fun option => (sock.remembered option).toNat * 1000

end TCPSocket

/-! ### The time-outs after a system call -/

namespace World

variable {w w' : World} {fd : Fd}

theorem timeouts_of_descriptors (h : w'.descriptors = w.descriptors) :
    w'.timeouts = w.timeouts := by
  funext fd
  rw [timeouts, timeouts, h]

theorem timeouts_of_update {d : Option Descriptor}
    (h : w'.descriptors = Function.update w.descriptors fd d) :
    w'.timeouts = Function.update w.timeouts fd (d.map Descriptor.timeout) := by
  funext fd'
  rw [timeouts, h]
  by_cases hfd : fd' = fd
  · rw [hfd, Function.update_self, Function.update_self]
  · rw [Function.update_of_ne hfd, Function.update_of_ne hfd, timeouts]

/-- A change of a descriptor that leaves its time-outs alone. -/
theorem timeouts_of_update_same {d d' : Descriptor} (hd : w.descriptors fd = some d)
    (h : w'.descriptors = Function.update w.descriptors fd (some d'))
    (hsame : d'.timeout = d.timeout) : w'.timeouts = w.timeouts := by
  have hfd : w.timeouts fd = some d.timeout := by
    rw [timeouts, hd]
    rfl
  rw [timeouts_of_update h, Option.map_some, hsame, ← hfd, Function.update_eq_self]

/-- A descriptor just returned by `socket` or `accept` has no time-outs. -/
theorem timeouts_of_fresh {port : UInt16} {peer : Peer}
    (h : w'.descriptors = Function.update w.descriptors fd (some (.fresh port peer))) :
    w'.timeouts = Function.update w.timeouts fd (some fun _ => 0) := by
  rw [timeouts_of_update h, Option.map_some]
  congr 2
  funext option
  cases option <;> rfl

/-- A descriptor that is not open has none. -/
theorem timeouts_eq_none (h : w.descriptors fd = none) : w.timeouts fd = none := by
  rw [timeouts, h]
  rfl

variable (w fd)

/-- `setsockopt` succeeds when the kernel agrees and the `timeval` is normalised. -/
theorem setsockopt_fst (option : TimeoutOption) (sec usec : ℕ) :
    (w.setsockopt fd option sec usec).1 = true ↔ (w.timeouts fd).isSome = true ∧
      w.answers.setsockopt.headD true = true ∧ usec < 1000000 := by
  unfold setsockopt timeouts
  cases w.descriptors fd with
  | none => simp
  | some d =>
    by_cases hok : w.answers.setsockopt.headD true = true ∧ usec < 1000000
    · simp only [if_pos hok, Option.map_some, Option.isSome_some, true_and]
      cases option <;> exact iff_of_true rfl hok
    · simp only [if_neg hok, Option.map_some, Option.isSome_some, true_and]
      exact iff_of_false nofun hok

/-- It changes that time-out if it succeeds, and nothing otherwise. -/
theorem setsockopt_timeouts (option : TimeoutOption) (sec usec : ℕ) :
    ((w.setsockopt fd option sec usec).1 = false ∧
        (w.setsockopt fd option sec usec).2.timeouts = w.timeouts) ∨
      ((w.setsockopt fd option sec usec).1 = true ∧ ∃ t, w.timeouts fd = some t ∧
        (w.setsockopt fd option sec usec).2.timeouts = Function.update w.timeouts fd
          (some (Function.update t option (sec * 1000000 + usec)))) := by
  unfold setsockopt
  -- A number that is not open is refused; an open one takes the `timeval` or refuses it.
  cases hd : w.descriptors fd with
  | none => exact .inl ⟨rfl, rfl⟩
  | some d =>
    have ht : w.timeouts fd = some d.timeout := by
      rw [timeouts, hd]
      rfl
    dsimp only
    split
    · right
      cases option with
      | SO_RCVTIMEO =>
        refine ⟨rfl, d.timeout, ht, (timeouts_of_update (w := w) rfl).trans ?_⟩
        rw [Option.map_some]
        congr 2
        funext other
        cases other <;> rfl
      | SO_SNDTIMEO =>
        refine ⟨rfl, d.timeout, ht, (timeouts_of_update (w := w) rfl).trans ?_⟩
        rw [Option.map_some]
        congr 2
        funext other
        cases other <;> rfl
    · exact .inl ⟨rfl, rfl⟩

end World

/-! ### Setting a time-out -/

namespace TCPSocket

variable {sock : TCPSocket} {fd : Fd} {w : World}

/-- `setTimeout` on an open socket. -/
theorem setTimeout_eq (hfd : sock.fd = some fd) (timeoutMs : UInt32) (option : TimeoutOption)
    (w : World) : sock.setTimeout timeoutMs option w =
      if sock.remembered option = timeoutMs then (true, sock, w)
      else
        let r := w.setsockopt fd option (timeoutMs.toNat / 1000) (timeoutMs.toNat * 1000)
        if r.1 = true then (true, sock.remember option timeoutMs, r.2) else (false, sock, r.2) := by
  unfold setTimeout
  simp only [hfd]
  cases option with
  | SO_RCVTIMEO => simp [remembered, remember, hfd]
  | SO_SNDTIMEO => simp [remembered, remember, hfd]

/-- A socket remembers what it was last told. -/
theorem remember_remembered (sock : TCPSocket) (option : TimeoutOption) (timeoutMs : UInt32) :
    (sock.remember option timeoutMs).remembered
      = Function.update sock.remembered option timeoutMs := by
  funext other
  cases option <;> cases other <;> rfl

/-- Setting the time-out **does what it says**: the call returns `true`, and the time-out asked for
    is in force, to the microsecond, while the other one is what it was. -/
def TimeoutSet (sock : TCPSocket) (timeoutMs : UInt32) (option : TimeoutOption) (w : World) :
    Prop :=
  (sock.setTimeout timeoutMs option w).1 = true ∧
    ∀ fd, sock.fd = some fd → ∃ t, w.timeouts fd = some t ∧
      (sock.setTimeout timeoutMs option w).2.2.timeouts fd
        = some (Function.update t option (timeoutMs.toNat * 1000))

/-- **A time-out can be set** if and only if it is shorter than a second, or is the one that the
    socket remembers; the kernel accepts every `timeval` that is normalised. -/
theorem timeoutSet_iff (hfd : sock.fd = some fd) (hagrees : sock.Agrees fd w)
    (haccepts : w.answers.setsockopt.headD true = true) (timeoutMs : UInt32)
    (option : TimeoutOption) :
    sock.TimeoutSet timeoutMs option w ↔
      timeoutMs.toNat < 1000 ∨ sock.remembered option = timeoutMs := by
  unfold TimeoutSet
  rw [setTimeout_eq hfd]
  simp only [hfd, Option.some.injEq, forall_eq']
  by_cases hset : sock.remembered option = timeoutMs
  · -- The early exit: what is remembered is in force.
    rw [if_pos hset]
    refine iff_of_true ⟨rfl, _, hagrees, ?_⟩ (.inr hset)
    rw [← hset, Function.update_eq_self option fun option => (sock.remembered option).toNat * 1000]
    exact hagrees
  rw [if_neg hset]
  have hfst := w.setsockopt_fst fd option (timeoutMs.toNat / 1000) (timeoutMs.toNat * 1000)
  rw [hagrees] at hfst
  by_cases hshort : timeoutMs.toNat < 1000
  · -- No whole seconds, and fewer than a million microseconds.
    have hok := hfst.mpr ⟨rfl, haccepts, by omega⟩
    refine iff_of_true ?_ (.inl hshort)
    obtain ⟨hfail, -⟩ | ⟨-, t, ht, hworld⟩ :=
      w.setsockopt_timeouts fd option (timeoutMs.toNat / 1000) (timeoutMs.toNat * 1000)
    · rw [hok] at hfail
      cases hfail
    have husec : timeoutMs.toNat / 1000 * 1000000 + timeoutMs.toNat * 1000
        = timeoutMs.toNat * 1000 := by omega
    rw [if_pos hok]
    refine ⟨rfl, t, ht, ?_⟩
    rw [hworld, Function.update_self, husec]
  · -- A million microseconds or more, which the kernel refuses.
    have hrefused : ¬(w.setsockopt fd option (timeoutMs.toNat / 1000)
        (timeoutMs.toNat * 1000)).1 = true := fun hok => by
      have := (hfst.mp hok).2.2
      omega
    rw [if_neg hrefused]
    exact iff_of_false (fun h => nomatch h.1) (not_or.mpr ⟨hshort, hset⟩)

end TCPSocket

/-- Descriptor 3 is open, with no time-outs. -/
def openWorld : World where
  descriptors := fun fd => if fd = 3 then some (.fresh 0 .absent) else none
  portsInUse := ∅
  answers := {}

/-- A new socket remembers no time-out, and none is in force. -/
theorem agrees_openWorld : (TCPSocket.ofFd 3).Agrees 3 openWorld := by
  show some _ = some _
  congr 1
  funext option
  cases option <;> rfl

/-- The longest time-out that can be set. -/
theorem timeoutSet_iff_999 : (TCPSocket.ofFd 3).TimeoutSet 999 .SO_RCVTIMEO openWorld :=
  (TCPSocket.timeoutSet_iff rfl agrees_openWorld rfl 999 .SO_RCVTIMEO).mpr
    (.inl (by decide))

/-- A time-out of a second is refused. -/
theorem timeoutSet_counterexample : (TCPSocket.ofFd 3).Agrees 3 openWorld ∧
    openWorld.answers.setsockopt.headD true = true ∧
    ¬ (TCPSocket.ofFd 3).TimeoutSet 1000 .SO_RCVTIMEO openWorld :=
  ⟨agrees_openWorld, rfl, fun h => by cases h.1⟩

/-! ### What the methods do to the time-outs in force -/

namespace TCPSocket

/-- Opening a descriptor: nothing happens, or a new one has no time-outs. -/
def OpensQuietly (opened : Option Fd) (w w' : World) : Prop :=
  (opened = none ∧ w'.timeouts = w.timeouts) ∨
    ∃ fd, opened = some fd ∧ w.timeouts fd = none ∧
      w'.timeouts = Function.update w.timeouts fd (some fun _ => 0)

theorem create_timeouts (w : World) :
    ∃ opened, (({} : TCPSocket).create w).2.1 = { fd := opened } ∧
      OpensQuietly opened w (({} : TCPSocket).create w).2.2 := by
  obtain ⟨-, hcases⟩ := w.socket_spec
  unfold create
  rcases hsock : w.socket with ⟨fd, w'⟩
  rw [hsock] at hcases
  rcases hcases with ⟨rfl, hsame⟩ | ⟨fd, rfl, hclosed, hopen⟩
  · exact ⟨none, rfl, .inl ⟨rfl, World.timeouts_of_descriptors hsame⟩⟩
  · refine ⟨some fd, rfl, .inr ⟨fd, rfl, World.timeouts_eq_none hclosed, ?_⟩⟩
    exact World.timeouts_of_fresh hopen

theorem accept_timeouts (sock : TCPSocket) (w : World) :
    ∃ opened, (sock.accept w).1.getD {} = { fd := opened } ∧
      OpensQuietly opened w (sock.accept w).2 := by
  unfold accept
  cases sock.fd with
  | none => exact ⟨none, rfl, .inl ⟨rfl, rfl⟩⟩
  | some fd =>
    obtain ⟨-, ⟨hnone, hsame⟩ | ⟨fd', d, peer, hsome, -, hclosed, -, hopen⟩⟩ := w.accept_spec fd
    · refine ⟨none, ?_, .inl ⟨rfl, World.timeouts_of_descriptors hsame⟩⟩
      dsimp only
      rw [hnone]
      rfl
    · refine ⟨some fd', ?_, .inr ⟨fd', rfl, World.timeouts_eq_none hclosed, ?_⟩⟩
      · dsimp only
        rw [hsome]
        rfl
      · exact World.timeouts_of_fresh hopen

theorem bind_timeouts (sock : TCPSocket) (port : UInt16) (w : World) :
    (sock.bind port w).2.timeouts = w.timeouts := by
  obtain hsame | ⟨fd, portsInUse, hbind⟩ := sock.bind_world port w
  · rw [hsame]
  · rw [hbind]
    show (w.bind fd port).2.timeouts = w.timeouts
    obtain ⟨-, ⟨-, hsame⟩ | ⟨d, port', -, hd, -, -, -, hset⟩⟩ := w.bind_spec fd port
    · exact World.timeouts_of_descriptors hsame
    · refine World.timeouts_of_update_same hd hset ?_
      funext option
      cases option <;> rfl

theorem connect_timeouts (sock : TCPSocket) (ip : Bytes) (port : UInt16) (w : World) :
    (sock.connect ip port w).2.timeouts = w.timeouts := by
  unfold connect
  cases sock.fd with
  | none => rfl
  | some fd =>
    dsimp only
    split
    · obtain ⟨-, hsame | ⟨d, own, peer, hd, -, -, hset⟩⟩ := w.connect_spec fd (cString ip) port
      · exact World.timeouts_of_descriptors hsame
      · refine World.timeouts_of_update_same hd hset ?_
        funext option
        cases option <;> rfl
    · rfl

/-- `close` fails and changes nothing, or leaves an object as good as new. -/
theorem close_timeouts (sock : TCPSocket) (w : World) :
    ((sock.close w).2.1 = sock ∧ (sock.close w).2.2.timeouts = w.timeouts) ∨
      ∃ fd, sock.fd = some fd ∧ (sock.close w).2.1 = {} ∧
        (sock.close w).2.2.timeouts = Function.update w.timeouts fd none := by
  -- Nothing to close; or `::close` is called, which keeps the descriptor when it fails.
  cases hfd : sock.fd with
  | none =>
    left
    unfold close
    rw [hfd]
    exact ⟨rfl, rfl⟩
  | some fd =>
    have hforget : (forgetPort fd w).timeouts = w.timeouts :=
      World.timeouts_of_descriptors (forgetPort_descriptors fd w)
    rw [close_some hfd]
    obtain ⟨-, ⟨hfail, hsame⟩ | ⟨hok, -, hset⟩⟩ := (forgetPort fd w).close_spec fd
    · rw [hfail]
      exact .inl ⟨rfl, (World.timeouts_of_descriptors hsame).trans hforget⟩
    · rw [hok, ← hforget]
      exact .inr ⟨fd, rfl, rfl, World.timeouts_of_update hset⟩

/-- The destructor: only the descriptor of the object can have lost its time-outs. -/
theorem destroy_timeouts (sock : TCPSocket) (w : World) {fd : Fd} (hfd : sock.fd ≠ some fd) :
    (sock.destroy w).timeouts fd = w.timeouts fd := by
  unfold destroy
  split
  · obtain ⟨-, hsame⟩ | ⟨fd', hfd', -, hclosed⟩ := sock.close_timeouts w
    · rw [hsame]
    · rw [hclosed, Function.update_of_ne]
      rintro rfl
      exact hfd hfd'
  · rfl

/-- `setTimeout` leaves the object in agreement, and the other descriptors alone. -/
theorem setTimeout_agrees {sock : TCPSocket} {fd : Fd} {w : World} (hfd : sock.fd = some fd)
    (hagrees : sock.Agrees fd w) (timeoutMs : UInt32) (option : TimeoutOption) :
    (sock.setTimeout timeoutMs option w).2.1.Agrees fd (sock.setTimeout timeoutMs option w).2.2 ∧
      (∀ fd' ≠ fd, (sock.setTimeout timeoutMs option w).2.2.timeouts fd' = w.timeouts fd') ∧
      ((sock.setTimeout timeoutMs option w).1 = true →
        (sock.setTimeout timeoutMs option w).2.1.remembered option = timeoutMs) := by
  rw [setTimeout_eq hfd]
  split
  · rename_i hset
    -- The early exit: the value is the one remembered.
    exact ⟨hagrees, fun _ _ => rfl, fun _ => hset⟩
  dsimp only
  obtain ⟨hfail, hsame⟩ | ⟨hok, t, ht, hworld⟩ :=
    w.setsockopt_timeouts fd option (timeoutMs.toNat / 1000) (timeoutMs.toNat * 1000)
  · -- The kernel refused: neither the option nor the member is touched.
    rw [if_neg (by rw [hfail]; exact Bool.false_ne_true)]
    refine ⟨?_, fun fd' _ => congrFun hsame fd', nofun⟩
    show World.timeouts _ fd = _
    rw [hsame]
    exact hagrees
  · -- The kernel took the `timeval`, so it was normalised: there were no whole seconds.
    have husec := ((w.setsockopt_fst fd option _ _).mp hok).2.2
    have htotal : timeoutMs.toNat / 1000 * 1000000 + timeoutMs.toNat * 1000
        = timeoutMs.toNat * 1000 := by omega
    rw [if_pos hok]
    refine ⟨?_, ?_, ?_⟩
    · obtain rfl := Option.some.inj (ht.symm.trans hagrees)
      show World.timeouts _ fd = _
      rw [hworld, Function.update_self, htotal, remember_remembered]
      congr 1
      funext other
      by_cases hother : other = option
      · rw [hother, Function.update_self, Function.update_self]
      · rw [Function.update_of_ne hother, Function.update_of_ne hother]
    · intro fd' hne
      dsimp only
      rw [hworld, Function.update_of_ne hne]
    · intro _
      rw [remember_remembered, Function.update_self]

end TCPSocket

/-! ### The time-outs over a run -/

/-- **The time-outs agree**: what an object with a descriptor remembers is in force for it, and no
    other object has it; an object with none remembers none. -/
structure TimeoutsAgree (s : Sockets) : Prop where
  unique : ∀ i j fd, s.own i = some fd → s.own j = some fd → i = j
  agrees : ∀ i fd, s.own i = some fd → (s.objects i).Agrees fd s.world
  closed : ∀ i, s.own i = none → s.objects i = {}

namespace TimeoutsAgree

variable {s : Sockets} {w' : World}

/-- A descriptor that is held is open. -/
theorem timeouts_ne_none (h : TimeoutsAgree s) {i : ℕ} {fd : Fd} (hi : s.own i = some fd) :
    s.world.timeouts fd ≠ none := by
  rw [h.agrees i fd hi]
  nofun

/-- Nothing happens to the time-outs. -/
theorem same (h : TimeoutsAgree s) (hw : w'.timeouts = s.world.timeouts) :
    TimeoutsAgree ⟨w', s.objects⟩ := by
  refine ⟨h.unique, ?_, h.closed⟩
  intro i fd hi
  show w'.timeouts fd = _
  rw [hw]
  exact h.agrees i fd hi

/-- One object changes, and the others do not notice. -/
theorem update (h : TimeoutsAgree s) {i : ℕ} {sock : TCPSocket}
    (hothers : ∀ j fd, j ≠ i → s.own j = some fd →
      sock.fd ≠ some fd ∧ w'.timeouts fd = s.world.timeouts fd)
    (hagrees : ∀ fd, sock.fd = some fd → sock.Agrees fd w')
    (hclosed : sock.fd = none → sock = {}) :
    TimeoutsAgree ⟨w', Function.update s.objects i sock⟩ := by
  refine ⟨?_, ?_, ?_⟩
  · -- No two objects hold one descriptor,
    intro j k fd hj hk
    rw [own_update, Owned.update_eq_some_iff] at hj hk
    obtain ⟨rfl, hj⟩ | ⟨hji, hj⟩ := hj
    · obtain ⟨rfl, -⟩ | ⟨hki, hk⟩ := hk
      · rfl
      · exact absurd hj (hothers k fd hki hk).1
    · obtain ⟨rfl, hk⟩ | ⟨-, hk⟩ := hk
      · exact absurd hk (hothers j fd hji hj).1
      · exact h.unique j k fd hj hk
  · -- each that holds one remembers what is in force on it,
    intro j fd hj
    rw [own_update, Owned.update_eq_some_iff] at hj
    obtain ⟨rfl, hj⟩ | ⟨hji, hj⟩ := hj
    · dsimp only
      rw [Function.update_self]
      exact hagrees fd hj
    · dsimp only
      rw [Function.update_of_ne hji]
      exact (hothers j fd hji hj).2.trans (h.agrees j fd hj)
  · -- and one that holds none is as it was constructed.
    intro j hj
    rw [own_update] at hj
    dsimp only
    by_cases hji : j = i
    · rw [hji, Function.update_self] at hj ⊢
      exact hclosed hj
    · rw [Function.update_of_ne hji] at hj ⊢
      exact h.closed j hj

/-- It does not matter which object is which. -/
theorem perm (h : TimeoutsAgree s) (σ : Equiv.Perm ℕ) :
    TimeoutsAgree ⟨s.world, s.objects ∘ σ⟩ := by
  refine ⟨?_, ?_, ?_⟩
  · exact fun i j fd hi hj => σ.injective (h.unique (σ i) (σ j) fd hi hj)
  · exact fun i fd hi => h.agrees (σ i) fd hi
  · exact fun i hi => h.closed (σ i) hi

/-- A descriptor passes, with what is remembered of it, to an object that has none. -/
theorem move (h : TimeoutsAgree s) {i : ℕ} (hi : s.own i = none) (j : ℕ) :
    TimeoutsAgree ⟨s.world,
      Function.update (Function.update s.objects j {}) i (s.objects j)⟩ := by
  -- The one that has none is as good as new, so the two change places.
  have hswap : Function.update (Function.update s.objects j {}) i (s.objects j)
      = s.objects ∘ Equiv.swap i j := by
    funext k
    show _ = s.objects (Equiv.swap i j k)
    rw [Equiv.swap_apply_def]
    by_cases hki : k = i
    · simp [hki]
    by_cases hkj : k = j
    · rw [Function.update_of_ne hki, hkj, Function.update_self, if_neg (hkj ▸ hki), if_pos rfl,
        h.closed i hi]
    · simp [hki, hkj]
  rw [hswap]
  exact h.perm _

/-- A new object takes the place of another one, with a new descriptor or none. -/
theorem opens (h : TimeoutsAgree s) (i : ℕ) {opened : Option Fd}
    (hw : TCPSocket.OpensQuietly opened s.world w') :
    TimeoutsAgree ⟨w', Function.update s.objects i { fd := opened }⟩ := by
  obtain ⟨rfl, hsame⟩ | ⟨fd, rfl, hfresh, hset⟩ := hw
  · exact h.update (fun j fd _ hj => ⟨nofun, congrFun hsame fd⟩) nofun fun _ => rfl
  · refine h.update ?_ ?_ nofun
    · -- The new descriptor was not open, so it is not one that is held.
      intro j fd' _ hj
      have hne : fd' ≠ fd := by
        rintro rfl
        exact h.timeouts_ne_none hj hfresh
      refine ⟨fun heq => hne (Option.some.inj heq).symm, ?_⟩
      rw [hset, Function.update_of_ne hne]
    · -- A new socket has no timeout, and neither has a new object.
      rintro fd' ⟨⟩
      show w'.timeouts fd = _
      rw [hset, Function.update_self]
      congr 1
      funext option
      cases option <;> exact (Nat.zero_mul 1000).symm

/-- An object is closed, or is not: the others hold other descriptors. -/
theorem close (h : TimeoutsAgree s) (i : ℕ) :
    TimeoutsAgree ⟨((s.objects i).close s.world).2.2,
      Function.update s.objects i ((s.objects i).close s.world).2.1⟩ := by
  obtain ⟨hsock, hsame⟩ | ⟨fd, hfd, hsock, hclosed⟩ := (s.objects i).close_timeouts s.world
  · rw [hsock, Function.update_eq_self]
    exact h.same hsame
  · rw [hsock]
    refine h.update ?_ nofun fun _ => rfl
    intro j fd' hji hj
    refine ⟨nofun, ?_⟩
    rw [hclosed, Function.update_of_ne]
    rintro rfl
    exact hji (h.unique j i _ hj hfd)

/-- The destructor closes what its object holds. -/
theorem destroy (h : TimeoutsAgree s) (i : ℕ) :
    TimeoutsAgree ⟨(s.objects i).destroy s.world, Function.update s.objects i {}⟩ := by
  refine h.update ?_ nofun fun _ => rfl
  intro j fd hji hj
  refine ⟨nofun, (s.objects i).destroy_timeouts s.world ?_⟩
  exact fun hi => hji (h.unique j i fd hj hi)

/-- `setTimeout` sets and remembers the same time-out, or neither. -/
theorem setTimeout (h : TimeoutsAgree s) (i : ℕ) (timeoutMs : UInt32) (option : TimeoutOption) :
    TimeoutsAgree ⟨((s.objects i).setTimeout timeoutMs option s.world).2.2,
      Function.update s.objects i ((s.objects i).setTimeout timeoutMs option s.world).2.1⟩ := by
  cases hi : s.own i with
  | none =>
    -- A closed socket: the call fails before anything is done.
    have hsame : (s.objects i).setTimeout timeoutMs option s.world
        = (false, s.objects i, s.world) := by
      unfold TCPSocket.setTimeout
      rw [show (s.objects i).fd = none from hi]
    rw [hsame, Function.update_eq_self]
    exact h
  | some fd =>
    obtain ⟨hagrees, hothers, -⟩ :=
      TCPSocket.setTimeout_agrees hi (h.agrees i fd hi) timeoutMs option
    have hfd := ((s.objects i).setTimeout_fd timeoutMs option s.world).trans hi
    refine h.update ?_ ?_ ?_
    · intro j fd' hji hj
      have hne : fd' ≠ fd := by
        rintro rfl
        exact hji (h.unique j i _ hj hi)
      rw [hfd]
      exact ⟨fun heq => hne (Option.some.inj heq).symm, hothers fd' hne⟩
    · intro fd' hfd'
      cases hfd.symm.trans hfd'
      exact hagrees
    · rw [hfd]
      nofun

end TimeoutsAgree

/-- **One operation** keeps the agreement, if it is no `create` on an object that holds a
    descriptor. -/
theorem timeoutsAgree_run {s : Sockets} (h : TimeoutsAgree s) {op : SocketOp}
    (hafresh : ∀ i, op = .create i → s.own i = none) : TimeoutsAgree (op.run s) := by
  cases op with
  | create i =>
    have hi := hafresh i rfl
    obtain ⟨opened, hsock, hopens⟩ := TCPSocket.create_timeouts s.world
    unfold SocketOp.run
    dsimp only
    rw [h.closed i hi, hsock]
    exact h.opens i hopens
  | bind i port => exact h.same ((s.objects i).bind_timeouts ..)
  | listen i backlog =>
    refine h.same ?_
    unfold TCPSocket.listen
    cases (s.objects i).fd <;> rfl
  | accept i j =>
    unfold SocketOp.run
    dsimp only
    split
    · exact h
    · obtain ⟨opened, hsock, hopens⟩ := (s.objects i).accept_timeouts s.world
      rw [hsock]
      exact h.opens j hopens
  | connect i ip port => exact h.same ((s.objects i).connect_timeouts ..)
  | setTimeout i timeoutMs option => exact h.setTimeout i timeoutMs option
  | close i => exact h.close i
  | moveConstruct i j =>
    unfold SocketOp.run
    dsimp only
    split
    · exact h
    · rename_i hi
      exact h.move (Option.not_isSome_iff_eq_none.mp hi) j
  | moveAssign i j =>
    unfold SocketOp.run
    dsimp only
    split
    · rw [TCPSocket.moveAssignSelf_eq]
      exact h.destroy i
    · rename_i hij
      -- The object assigned to is destroyed first, and then takes over the other.
      have hmove := (h.destroy i).move (i := i) (by rw [own_update, Function.update_self]) j
      dsimp only at hmove
      rw [Function.update_of_ne (Ne.symm hij), Function.update_comm hij,
        Function.update_idem] at hmove
      rw [TCPSocket.moveAssign_eq]
      exact hmove
  | destroy i => exact h.destroy i

/-- At the start there are no objects to disagree. -/
theorem timeoutsAgree_start (w : World) : TimeoutsAgree (.start w) :=
  ⟨nofun, nofun, fun _ _ => rfl⟩

/-- No operation brings a disagreement about. -/
theorem timeoutsAgree_runAll {s : Sockets} (h : TimeoutsAgree s) {ops : List SocketOp}
    (hafresh : CreatesAfresh ops s) {ops₁ : List SocketOp} (hpre : ops₁ <+: ops) :
    TimeoutsAgree (SocketOp.runAll ops₁ s) := by
  induction ops generalizing s ops₁ with
  | nil =>
    rw [List.prefix_nil.mp hpre]
    exact h
  | cons op ops ih =>
    obtain ⟨hfirst, hrest⟩ := hafresh
    obtain rfl | ⟨ops₂, rfl, hpre₂⟩ := List.prefix_cons_iff.mp hpre
    · exact h
    · exact ih (timeoutsAgree_run h hfirst) hrest hpre₂

/-- **The time-outs remembered agree with those in force** in every state that a run reaches, and
    there a time-out that `setTimeout` reports as set is in force: `create` is called only on
    sockets that hold no descriptor. -/
theorem timeouts_agree (w : World) (ops : List SocketOp) (hafresh : CreatesAfresh ops (.start w))
    (ops₁ : List SocketOp) (hpre : ops₁ <+: ops) :
    let s := SocketOp.runAll ops₁ (.start w)
    (∀ i fd, s.own i = some fd → (s.objects i).Agrees fd s.world) ∧
      ∀ i timeoutMs option, ((s.objects i).setTimeout timeoutMs option s.world).1 = true →
        ∃ fd t, s.own i = some fd ∧
          ((s.objects i).setTimeout timeoutMs option s.world).2.2.timeouts fd = some t ∧
          t option = timeoutMs.toNat * 1000 := by
  intro s
  have hs : TimeoutsAgree s := timeoutsAgree_runAll (timeoutsAgree_start w) hafresh hpre
  refine ⟨hs.agrees, ?_⟩
  intro i timeoutMs option hset
  -- A call that succeeded was made on an open socket.
  cases hi : s.own i with
  | none =>
    unfold TCPSocket.setTimeout at hset
    rw [show (s.objects i).fd = none from hi] at hset
    cases hset
  | some fd =>
    obtain ⟨hagrees, -, hremembers⟩ :=
      TCPSocket.setTimeout_agrees hi (hs.agrees i fd hi) timeoutMs option
    exact ⟨fd, _, rfl, hagrees, by rw [hremembers hset]⟩

/-- A socket is created, gets a time-out of 10 milliseconds, and is moved. -/
theorem timeouts_agree_moved :
    ((SocketOp.runAll [.create 0, .setTimeout 0 10 .SO_RCVTIMEO, .moveConstruct 1 0]
        (.start createTwiceStart)).objects 1).Agrees 3
      (SocketOp.runAll [.create 0, .setTimeout 0 10 .SO_RCVTIMEO, .moveConstruct 1 0]
        (.start createTwiceStart)).world := by
  have hafresh : CreatesAfresh [.create 0, .setTimeout 0 10 .SO_RCVTIMEO, .moveConstruct 1 0]
      (.start createTwiceStart) := by
    refine ⟨?_, nofun, nofun, trivial⟩
    rintro i ⟨⟩
    rfl
  exact (timeouts_agree createTwiceStart _ hafresh _ List.prefix_rfl).1 1 3 rfl

end Evaluation
