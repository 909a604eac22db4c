import Mathlib.Logic.Equiv.Basic
import Evaluation.Descriptors
import Evaluation.Ports

namespace Evaluation

open Lib

/-!
# Who owns a descriptor

`TCPSocket` is meant to own its descriptor: what is open is held by one object, and closed when
that object lets go of it.  Move construction, move assignment, `close` and the destructor see to
that.  `create` does not: it overwrites the descriptor that it finds.

* `Owned` — every open descriptor that the class has opened is held by exactly one object, and
  none has been closed twice;
* `owned_run_iff` — one operation keeps this if and only if it is no `create` on an object that
  holds a descriptor;
* `ownership_iff` — hence a run keeps it throughout if and only if it has no such step
  (`CreatesAfresh`).
-/

/-- What each object holds. -/
def Sockets.own (s : Sockets) (i : ℕ) : Option Fd := (s.objects i).fd

/-- **Ownership**, in a process that had some descriptors open before the class was used (`w₀`): the
    other open ones are those that objects hold, each has one holder, and the ledger shows each
    `::close` to be of a descriptor that was open. -/
structure Owned (w₀ w : World) (own : ℕ → Option Fd) : Prop where
  unique : ∀ i j fd, own i = some fd → own j = some fd → i = j
  apart : ∀ i fd, own i = some fd → fd ∉ w₀.openFds
  open_iff : ∀ fd, fd ∈ w.openFds ↔ fd ∈ w₀.openFds ∨ ∃ i, own i = some fd
  ledger : ∃ es, w.ledger = w₀.ledger ++ es ∧ Replays w₀.openFds es w.openFds

/-- The object that an operation changes. -/
theorem own_update (w : World) (objects : ℕ → TCPSocket) (i : ℕ) (sock : TCPSocket) :
    Sockets.own ⟨w, Function.update objects i sock⟩
      = Function.update (Sockets.own ⟨w, objects⟩) i sock.fd := by
  funext k
  exact Function.apply_update (fun _ (sock : TCPSocket) => sock.fd) objects i sock k

namespace Owned

variable {w₀ w w' : World} {own : ℕ → Option Fd}

/-- What is held is open. -/
theorem mem_openFds (h : Owned w₀ w own) {i : ℕ} {fd : Fd} (hi : own i = some fd) :
    fd ∈ w.openFds := (h.open_iff fd).mpr (.inr ⟨i, hi⟩)

/-- Who owns what does not change where the descriptors are left alone. -/
theorem untouched (h : Owned w₀ w own) (hw : w.Untouched w') : Owned w₀ w' own := by
  refine ⟨h.unique, h.apart, ?_, ?_⟩
  · rw [hw.openFds]
    exact h.open_iff
  · rw [hw.openFds, hw.ledger]
    exact h.ledger

/-- Who holds what when an object has changed. -/
theorem update_eq_some_iff {i j : ℕ} {held : Option Fd} {fd : Fd} :
    Function.update own i held j = some fd ↔
      (j = i ∧ held = some fd) ∨ (j ≠ i ∧ own j = some fd) := by
  rw [Function.update_apply]
  split
  · simp [*]
  · simp [*]

/-- An object that holds nothing gets a new descriptor. -/
theorem opens (h : Owned w₀ w own) {i : ℕ} {fd : Fd} (hi : own i = none) (hw : w.Opens fd w') :
    Owned w₀ w' (Function.update own i (some fd)) := by
  -- The descriptor was not open, so nobody holds it yet, and nobody loses another.
  have hnew : ∀ j, own j ≠ some fd := fun j hj => hw.fresh (h.mem_openFds hj)
  have hholds : ∀ j fd', Function.update own i (some fd) j = some fd' ↔
      (j = i ∧ fd' = fd) ∨ own j = some fd' := by
    intro j fd'
    rw [update_eq_some_iff, Option.some.injEq, eq_comm (a := fd)]
    refine or_congr Iff.rfl (and_iff_right_of_imp ?_)
    rintro hj rfl
    cases hi.symm.trans hj
  refine ⟨?_, ?_, ?_, ?_⟩
  · intro j k fd' hj hk
    rw [hholds] at hj hk
    obtain ⟨rfl, rfl⟩ | hj' := hj
    · obtain ⟨rfl, -⟩ | hk' := hk
      · rfl
      · exact absurd hk' (hnew k)
    · obtain ⟨-, rfl⟩ | hk' := hk
      · exact absurd hj' (hnew j)
      · exact h.unique j k fd' hj' hk'
  · intro j fd' hj
    rw [hholds] at hj
    obtain ⟨-, rfl⟩ | hj' := hj
    · exact fun hold => hw.fresh ((h.open_iff _).mpr (.inl hold))
    · exact h.apart j fd' hj'
  · intro fd'
    rw [hw.openFds, Set.mem_insert_iff, h.open_iff]
    simp only [hholds]
    constructor
    · rintro (rfl | hold | ⟨j, hj⟩)
      · exact .inr ⟨i, .inl ⟨rfl, rfl⟩⟩
      · exact .inl hold
      · exact .inr ⟨j, .inr hj⟩
    · rintro (hold | ⟨j, ⟨-, hfd⟩ | hj⟩)
      · exact .inr (.inl hold)
      · exact .inl hfd
      · exact .inr (.inr ⟨j, hj⟩)
  · obtain ⟨es, hes, hreplays⟩ := h.ledger
    refine ⟨es ++ [.opened fd], by rw [hw.ledger, hes, List.append_assoc], ?_⟩
    rw [hw.openFds]
    exact hreplays.append (replays_opened hw.fresh)

/-- An object lets go of its descriptor, which is closed. -/
theorem closes (h : Owned w₀ w own) {i : ℕ} {fd : Fd} (hi : own i = some fd)
    (hw : w.Closes fd w') : Owned w₀ w' (Function.update own i none) := by
  -- What others hold is another one.
  have hholds : ∀ j fd', Function.update own i none j = some fd' ↔
      fd' ≠ fd ∧ own j = some fd' := by
    intro j fd'
    rw [update_eq_some_iff]
    constructor
    · rintro (⟨-, ⟨⟩⟩ | ⟨hji, hj⟩)
      refine ⟨?_, hj⟩
      rintro rfl
      exact hji (h.unique j i fd' hj hi)
    · rintro ⟨hne, hj⟩
      refine .inr ⟨?_, hj⟩
      rintro rfl
      exact hne (Option.some.inj (hj.symm.trans hi))
  refine ⟨?_, ?_, ?_, ?_⟩
  · exact fun j k fd' hj hk => h.unique j k fd' ((hholds j fd').mp hj).2 ((hholds k fd').mp hk).2
  · exact fun j fd' hj => h.apart j fd' ((hholds j fd').mp hj).2
  · intro fd'
    rw [hw.openFds]
    show (fd' ∈ w.openFds ∧ fd' ≠ fd) ↔ _
    rw [h.open_iff]
    simp only [hholds]
    constructor
    · rintro ⟨hold | ⟨j, hj⟩, hne⟩
      · exact .inl hold
      · exact .inr ⟨j, hne, hj⟩
    · rintro (hold | ⟨j, hne, hj⟩)
      · refine ⟨.inl hold, ?_⟩
        rintro rfl
        exact h.apart i fd' hi hold
      · exact ⟨.inr ⟨j, hj⟩, hne⟩
  · obtain ⟨es, hes, hreplays⟩ := h.ledger
    refine ⟨es ++ [.closed fd], by rw [hw.ledger, hes, List.append_assoc], ?_⟩
    rw [hw.openFds]
    exact hreplays.append (replays_closed hw.wasOpen)

/-- It does not matter which object is which. -/
theorem perm (h : Owned w₀ w own) (σ : Equiv.Perm ℕ) : Owned w₀ w (own ∘ σ) := by
  refine ⟨?_, fun i => h.apart (σ i), ?_, h.ledger⟩
  · exact fun i j fd hi hj => σ.injective (h.unique (σ i) (σ j) fd hi hj)
  · intro fd
    rw [h.open_iff]
    refine or_congr Iff.rfl ?_
    exact (σ.surjective.exists (p := fun i => own i = some fd))

/-- A descriptor passes from one object to another that holds nothing. -/
theorem move (h : Owned w₀ w own) {i : ℕ} (hi : own i = none) (j : ℕ) :
    Owned w₀ w (Function.update (Function.update own j none) i (own j)) := by
  -- The one that holds nothing and the other one change places.
  have hswap : Function.update (Function.update own j none) i (own j) = own ∘ Equiv.swap i j := by
    funext k
    show _ = own (Equiv.swap i j k)
    rw [Equiv.swap_apply_def]
    by_cases hki : k = i
    · simp [hki]
    by_cases hkj : k = j
    · rw [Function.update_of_ne hki, hkj, Function.update_self, if_neg (hkj ▸ hki), if_pos rfl, hi]
    · simp [hki, hkj]
  rw [hswap]
  exact h.perm _

/-- An object loses its descriptor, and nobody closes it. -/
theorem not_lost (h : Owned w₀ w own) {i : ℕ} {fd : Fd} (hi : own i = some fd)
    (hopen : fd ∈ w'.openFds) {held : Option Fd}
    (h' : Owned w₀ w' (Function.update own i held)) : held = some fd := by
  by_contra hheld
  rcases (h'.open_iff fd).mp hopen with hold | ⟨j, hj⟩
  · exact h.apart i fd hi hold
  · obtain ⟨-, hj⟩ | ⟨hji, hj⟩ := update_eq_some_iff.mp hj
    · exact hheld hj
    · exact hji (h.unique j i fd hj hi)

end Owned

/-! ### The operations -/

theorem between_run (op : SocketOp) (s : Sockets) : s.world.Between (op.run s).world := by
  -- By the member that is called; a guard of the run that does not hold leaves the world alone.
  cases op with
  | create i =>
    obtain ⟨-, -, huntouched⟩ | ⟨fd, -, -, hopens⟩ := (s.objects i).opens_create s.world
    · exact huntouched.toBetween
    · exact hopens.toBetween
  | bind i port => exact ((s.objects i).untouched_bind port s.world).toBetween
  | listen i backlog => exact ((s.objects i).untouched_listen backlog s.world).toBetween
  | accept i j =>
    unfold SocketOp.run
    dsimp only
    split
    · exact World.Between.refl _
    · obtain ⟨-, huntouched⟩ | ⟨fd, -, hopens⟩ := (s.objects i).opens_accept s.world
      · exact huntouched.toBetween
      · exact hopens.toBetween
  | connect i ip port => exact ((s.objects i).untouched_connect ip port s.world).toBetween
  | setTimeout i timeoutMs option =>
    exact ((s.objects i).untouched_setTimeout timeoutMs option s.world).toBetween
  | close i => exact (s.objects i).between_close s.world
  | moveConstruct i j =>
    unfold SocketOp.run
    dsimp only
    split <;> exact World.Between.refl _
  | moveAssign i j =>
    unfold SocketOp.run
    dsimp only
    rw [TCPSocket.moveAssignSelf_eq, TCPSocket.moveAssign_eq]
    split <;> exact (s.objects i).between_destroy s.world
  | destroy i => exact (s.objects i).between_destroy s.world

section

variable {w₀ : World} {s : Sockets}

/-- `close`, called on an object that may hold a descriptor. -/
theorem owned_close (h : Owned w₀ s.world s.own) (hclose : s.world.CanClose) (i : ℕ) :
    Owned w₀ ((s.objects i).close s.world).2.2
      (Function.update s.own i ((s.objects i).close s.world).2.1.fd) := by
  cases hfd : (s.objects i).fd with
  | none =>
    unfold TCPSocket.close
    rw [hfd]
    have hsame : Function.update s.own i (s.objects i).fd = s.own := Function.update_eq_self i s.own
    rw [hfd] at hsame
    show Owned w₀ s.world (Function.update s.own i (s.objects i).fd)
    rw [hfd, hsame]
    exact h
  | some fd =>
    obtain ⟨hsock, hcloses⟩ := TCPSocket.closes_close hfd (h.mem_openFds hfd) hclose
    rw [hsock]
    exact h.closes hfd hcloses

/-- So with an object that is given up. -/
theorem owned_destroy (h : Owned w₀ s.world s.own) (hclose : s.world.CanClose) (i : ℕ) :
    Owned w₀ ((s.objects i).destroy s.world) (Function.update s.own i none) := by
  cases hfd : (s.objects i).fd with
  | none =>
    have hsame : Function.update s.own i (s.objects i).fd = s.own := Function.update_eq_self i s.own
    rw [hfd] at hsame
    rw [TCPSocket.destroy_none hfd, hsame]
    exact h
  | some fd => exact h.closes hfd (TCPSocket.closes_destroy hfd (h.mem_openFds hfd) hclose)

/-- `create` keeps the ownership on an object that holds nothing. -/
theorem owned_create_iff (h : Owned w₀ s.world s.own) (i : ℕ) :
    Owned w₀ ((s.objects i).create s.world).2.2
        (Function.update s.own i ((s.objects i).create s.world).2.1.fd) ↔ s.own i = none := by
  obtain ⟨-, hfd', huntouched⟩ | ⟨fd', -, hfd', hopens⟩ := (s.objects i).opens_create s.world
  · rw [hfd']
    constructor
    · intro h'
      by_contra hi
      obtain ⟨fd, hfd⟩ := Option.ne_none_iff_exists'.mp hi
      -- The descriptor stays open, and no object holds it any more.
      have hopen : fd ∈ ((s.objects i).create s.world).2.2.openFds := by
        rw [huntouched.openFds]
        exact h.mem_openFds hfd
      cases h.not_lost hfd hopen h'
    · intro hi
      rw [← hi, Function.update_eq_self]
      exact h.untouched huntouched
  · rw [hfd']
    constructor
    · intro h'
      by_contra hi
      obtain ⟨fd, hfd⟩ := Option.ne_none_iff_exists'.mp hi
      have hopen : fd ∈ ((s.objects i).create s.world).2.2.openFds := by
        rw [hopens.openFds]
        exact Set.mem_insert_of_mem fd' (h.mem_openFds hfd)
      -- The new descriptor would have to be the old one, which is open.
      cases h.not_lost hfd hopen h'
      exact hopens.fresh (h.mem_openFds hfd)
    · exact fun hi => h.opens hi hopens

/-- So does an object that `accept` makes where none lives. -/
theorem owned_accept (h : Owned w₀ s.world s.own) (i : ℕ) {j : ℕ} (hj : s.own j = none) :
    Owned w₀ ((s.objects i).accept s.world).2
      (Function.update s.own j (((s.objects i).accept s.world).1.getD {}).fd) := by
  obtain ⟨hnone, huntouched⟩ | ⟨fd, hsome, hopens⟩ := (s.objects i).opens_accept s.world
  · rw [hnone]
    show Owned w₀ _ (Function.update s.own j none)
    rw [← hj, Function.update_eq_self]
    exact h.untouched huntouched
  · rw [hsome]
    exact h.opens hj hopens

/-- The move assignment closes what the first object holds, and hands over what the second one
    does. -/
theorem owned_moveAssign (h : Owned w₀ s.world s.own) (hclose : s.world.CanClose) {i j : ℕ}
    (hij : i ≠ j) :
    Owned w₀ ((s.objects i).destroy s.world)
      (Function.update (Function.update s.own j none) i (s.own j)) := by
  have hmove := (owned_destroy h hclose i).move (Function.update_self ..) j
  rw [Function.update_of_ne (Ne.symm hij), Function.update_comm hij, Function.update_idem] at hmove
  exact hmove

/-- **One operation** keeps the ownership if and only if it is no `create` on an object that holds
    a descriptor. -/
theorem owned_run_iff (h : Owned w₀ s.world s.own) (hclose : s.world.CanClose) (op : SocketOp) :
    Owned w₀ (op.run s).world (op.run s).own ↔ ∀ i, op = .create i → s.own i = none := by
  -- Only a `create` over an open socket can lose a descriptor; every other call keeps the books.
  cases op with
  | create i =>
    simp only [SocketOp.create.injEq, forall_eq']
    unfold SocketOp.run
    dsimp only
    rw [own_update]
    exact owned_create_iff h i
  | bind i port => exact iff_of_true (h.untouched ((s.objects i).untouched_bind ..)) nofun
  | listen i backlog => exact iff_of_true (h.untouched ((s.objects i).untouched_listen ..)) nofun
  | connect i ip port =>
    exact iff_of_true (h.untouched ((s.objects i).untouched_connect ..)) nofun
  | accept i j =>
    apply iff_of_true _ nofun
    unfold SocketOp.run
    dsimp only
    split
    · exact h
    · rename_i hj
      rw [own_update]
      exact owned_accept h i (Option.not_isSome_iff_eq_none.mp hj)
  | setTimeout i timeoutMs option =>
    apply iff_of_true _ nofun
    unfold SocketOp.run
    dsimp only
    rw [own_update, TCPSocket.setTimeout_fd]
    show Owned w₀ _ (Function.update s.own i (s.own i))
    rw [Function.update_eq_self]
    exact h.untouched ((s.objects i).untouched_setTimeout ..)
  | close i =>
    apply iff_of_true _ nofun
    unfold SocketOp.run
    dsimp only
    rw [own_update]
    exact owned_close h hclose i
  | moveConstruct i j =>
    apply iff_of_true _ nofun
    unfold SocketOp.run
    dsimp only
    split
    · exact h
    · rename_i hi
      rw [own_update, own_update]
      exact h.move (Option.not_isSome_iff_eq_none.mp hi) j
  | moveAssign i j =>
    apply iff_of_true _ nofun
    unfold SocketOp.run
    dsimp only
    split
    · rw [own_update, TCPSocket.moveAssignSelf_eq]
      exact owned_destroy h hclose i
    · rename_i hij
      rw [own_update, own_update, TCPSocket.moveAssign_eq]
      exact owned_moveAssign h hclose hij
  | destroy i =>
    apply iff_of_true _ nofun
    unfold SocketOp.run
    dsimp only
    rw [own_update]
    exact owned_destroy h hclose i

end

/-! ### Runs -/

/-- A start at which no object has a descriptor yet. -/
def Sockets.start (w : World) : Sockets where
  world := w
  objects := fun _ => {}

/-- At the start nobody owns anything. -/
theorem owned_start (w : World) : Owned w w (Sockets.start w).own := by
  refine ⟨nofun, nofun, ?_, [], (List.append_nil _).symm, .nil _⟩
  intro fd
  constructor
  · exact Or.inl
  · rintro (hold | ⟨_, ⟨⟩⟩)
    exact hold

/-- `create` is called only on objects that hold nothing. -/
def CreatesAfresh (ops : List SocketOp) (s : Sockets) : Prop :=
  match ops with
  | [] => True
  | op :: ops => (∀ i, op = .create i → s.own i = none) ∧ CreatesAfresh ops (op.run s)

/-- Along a run every descriptor has one owner if and only if `create` is called only on objects
    that hold none. -/
theorem owned_runAll_iff {w₀ : World} {s : Sockets} (h : Owned w₀ s.world s.own)
    (hclose : s.world.CanClose) (ops : List SocketOp) :
    (∀ ops₁, ops₁ <+: ops →
        Owned w₀ (SocketOp.runAll ops₁ s).world (SocketOp.runAll ops₁ s).own) ↔
      CreatesAfresh ops s := by
  induction ops generalizing s with
  | nil =>
    apply iff_of_true _ trivial
    intro ops₁ hprefix
    rw [List.prefix_nil.mp hprefix]
    exact h
  | cons op ops ih =>
    have hstep := owned_run_iff h hclose op
    have hclose' := (between_run op s).canClose hclose
    constructor
    · intro hall
      have hfirst : Owned w₀ (op.run s).world (op.run s).own :=
        hall [op] (List.prefix_append [op] ops)
      refine ⟨hstep.mp hfirst, (ih hfirst hclose').mp ?_⟩
      exact fun ops₁ hprefix => hall (op :: ops₁) (List.prefix_cons_inj op |>.mpr hprefix)
    · -- A state that is reached is the first one, or one that is reached from the second one.
      rintro ⟨hafresh, hrest⟩ ops₁ hprefix
      obtain rfl | ⟨ops₂, rfl, hprefix₂⟩ := List.prefix_cons_iff.mp hprefix
      · exact h
      · exact (ih (hstep.mpr hafresh) hclose').mpr hrest ops₂ hprefix₂

/-- **A run** keeps the ownership in every state it reaches if and only if `create` is never called
    on an object that holds a descriptor. -/
theorem ownership_iff (w : World) (hclose : w.CanClose) (ops : List SocketOp) :
    (∀ ops₁, ops₁ <+: ops → Owned w (SocketOp.runAll ops₁ (.start w)).world
        (SocketOp.runAll ops₁ (.start w)).own) ↔ CreatesAfresh ops (.start w) :=
  owned_runAll_iff (owned_start w) hclose ops

/-- A world with nothing open, where descriptors 3 and 4 are the next ones. -/
def createTwiceStart : World where
  descriptors := fun _ => none
  portsInUse := ∅
  answers := { socket := [some 3, some 4] }

/-- A socket that is created, closed, and created again. -/
theorem ownership_iff_close :
    Owned createTwiceStart
      (SocketOp.runAll [.create 0, .close 0, .create 0] (.start createTwiceStart)).world
      (SocketOp.runAll [.create 0, .close 0, .create 0] (.start createTwiceStart)).own := by
  have hafresh : CreatesAfresh [.create 0, .close 0, .create 0] (.start createTwiceStart) := by
    refine ⟨?_, nofun, ?_, trivial⟩
    · rintro i ⟨⟩
      rfl
    · rintro i ⟨⟩
      rfl
  have howned := (ownership_iff createTwiceStart nofun [.create 0, .close 0, .create 0]).mpr hafresh
  exact howned _ List.prefix_rfl

/-- `create` twice on one socket, which `HTTPServer::init` followed by `run` does: descriptor 3
    stays open and nobody holds it. -/
theorem ownership_counterexample : createTwiceStart.CanClose ∧
    ¬ Owned createTwiceStart
      (SocketOp.runAll [.create 0, .create 0] (.start createTwiceStart)).world
      (SocketOp.runAll [.create 0, .create 0] (.start createTwiceStart)).own := by
  refine ⟨nofun, ?_⟩
  intro h
  have hopen : 3 ∈ (SocketOp.runAll [.create 0, .create 0]
    (.start createTwiceStart)).world.openFds := rfl
  obtain ⟨⟨⟩⟩ | ⟨i, hi⟩ := (h.open_iff 3).mp hopen
  -- The only object that has been used holds the second socket, so the first one is no one's.
  by_cases h0 : i = 0
  · subst h0
    exact absurd hi (by decide)
  · have hnone : (SocketOp.runAll [.create 0, .create 0] (.start createTwiceStart)).own i
        = none := by
      show ((SocketOp.create 0).run ((SocketOp.create 0).run (.start createTwiceStart))).own i
        = none
      unfold SocketOp.run
      rw [own_update, Function.update_of_ne h0, own_update, Function.update_of_ne h0]
      rfl
    cases hi.symm.trans hnone

end Evaluation
