import Mathlib.Data.Nat.Notation

namespace Lib

/-!
# Programs with a state, an abrupt end and unbounded loops

`Prog ε σ α` is a deterministic program over states `σ` that ends with a value of `α`,
ends abruptly with an `ε`, or runs forever.  Running takes a fuel bound; a program carries
the proof that more fuel never changes an answer, so that "the program returns" is a
relation with no fuel in it:

* `x.Returns s r` — started in `s`, the program ends with the outcome `r`;
* `Returns.unique` — it ends in one way only;
* `returns_bind`, `returns_loop_of_next` — how runs of a sequence and of a loop are put together;
* `Returns.loop_induction` — the invariant rule for loops.

What a run does that never ends shows in `reached`: the states in which it runs out of fuel.
-/

/-- How a terminating run ends: with a value or abruptly, and in which state. -/
inductive Outcome (ε σ α : Type) where
  | ok (a : α) (s : σ)
  | error (e : ε) (s : σ)
  deriving DecidableEq, Repr

/-- The state a run ends in. -/
def Outcome.state {ε σ α : Type} : Outcome ε σ α → σ
  | .ok _ s => s
  | .error _ s => s

/-- A program: `run n s` is the outcome from `s` if the run needs at most `n` units of
    fuel, and `none` otherwise; `reached n s` is the state in which it ends or runs out of them. -/
structure Prog (ε σ α : Type) where
  run : ℕ → σ → Option (Outcome ε σ α)
  reached : ℕ → σ → σ
  mono : ∀ {n m : ℕ} {s : σ} {r : Outcome ε σ α}, n ≤ m → run n s = some r → run m s = some r
  reached_of_run : ∀ {n : ℕ} {s : σ} {r : Outcome ε σ α}, run n s = some r →
    reached n s = r.state

namespace Prog

variable {ε ε' σ τ α β : Type}

/-- Started in `s`, the program ends with the outcome `r`. -/
def Returns (x : Prog ε σ α) (s : σ) (r : Outcome ε σ α) : Prop := ∃ n, x.run n s = some r

/-- A program ends in one way only. -/
theorem Returns.unique {x : Prog ε σ α} {s : σ} {r r' : Outcome ε σ α}
    (h : x.Returns s r) (h' : x.Returns s r') : r = r' := by
  obtain ⟨n, hn⟩ := h
  obtain ⟨m, hm⟩ := h'
  have h1 := x.mono (Nat.le_max_left n m) hn
  have h2 := x.mono (Nat.le_max_right n m) hm
  exact Option.some.inj (h1.symm.trans h2)

/-! ### Primitive programs -/

/-- A program that needs no fuel. -/
def ofFun (f : σ → Outcome ε σ α) : Prog ε σ α where
  run := fun _ s => some (f s)
  reached := fun _ s => (f s).state
  mono := fun _ h => h
  reached_of_run := fun h => congrArg Outcome.state (Option.some.inj h)

@[simp] theorem returns_ofFun (f : σ → Outcome ε σ α) (s : σ) (r : Outcome ε σ α) :
    (ofFun f).Returns s r ↔ r = f s := by
  constructor
  · rintro ⟨_, h⟩; exact (Option.some.inj h).symm
  · rintro rfl; exact ⟨0, rfl⟩

/-- The current state. -/
def get : Prog ε σ σ := ofFun fun s => .ok s s

/-- Change the state. -/
def modify (f : σ → σ) : Prog ε σ Unit := ofFun fun s => .ok () (f s)

/-- End abruptly. -/
def throw (e : ε) : Prog ε σ α := ofFun fun s => .error e s

/-- Sequencing; an abrupt end of the first part is one of the whole. -/
def bind (x : Prog ε σ α) (f : α → Prog ε σ β) : Prog ε σ β where
  run := fun n s => match x.run n s with
    | none => none
    | some (.error e s') => some (.error e s')
    | some (.ok a s') => (f a).run n s'
  reached := fun n s => match x.run n s with
    | none => x.reached n s
    | some (.error _ s') => s'
    | some (.ok a s') => (f a).reached n s'
  mono := by
    intro n m s r hnm h
    cases hx : x.run n s with
    | none => simp only [hx, reduceCtorEq] at h
    | some o =>
      rw [x.mono hnm hx]
      cases o with
      | error e s' => simpa only [hx] using h
      | ok a s' =>
        simp only [hx] at h
        exact (f a).mono hnm h
  reached_of_run := by
    intro n s r h
    cases hx : x.run n s with
    | none => simp only [hx, reduceCtorEq] at h
    | some o =>
      cases o with
      | error e s' =>
        simp only [hx, Option.some.injEq] at h
        rw [← h]
        rfl
      | ok a s' =>
        simp only [hx] at h
        exact (f a).reached_of_run h

instance : Monad (Prog ε σ) where
  pure := fun a => ofFun fun s => .ok a s
  bind := bind

@[simp] theorem returns_pure (a : α) (s : σ) (r : Outcome ε σ α) :
    (pure a : Prog ε σ α).Returns s r ↔ r = .ok a s := returns_ofFun _ s r

@[simp] theorem returns_get (s : σ) (r : Outcome ε σ σ) :
    (get : Prog ε σ σ).Returns s r ↔ r = .ok s s := returns_ofFun _ s r

@[simp] theorem returns_modify (f : σ → σ) (s : σ) (r : Outcome ε σ Unit) :
    (modify f : Prog ε σ Unit).Returns s r ↔ r = .ok () (f s) := returns_ofFun _ s r

@[simp] theorem returns_throw (e : ε) (s : σ) (r : Outcome ε σ α) :
    (throw e : Prog ε σ α).Returns s r ↔ r = .error e s := returns_ofFun _ s r

/-- **Sequencing.** A sequence ends as its first part does when that ends abruptly, and
    else as its second part does from there. -/
theorem returns_bind (x : Prog ε σ α) (f : α → Prog ε σ β) (s : σ) (r : Outcome ε σ β) :
    (x >>= f).Returns s r ↔
      (∃ a s', x.Returns s (.ok a s') ∧ (f a).Returns s' r) ∨
      (∃ e s', x.Returns s (.error e s') ∧ r = .error e s') := by
  constructor
  · rintro ⟨n, h⟩
    change (x.bind f).run n s = some r at h
    simp only [bind] at h
    cases hx : x.run n s with
    | none => simp only [hx, reduceCtorEq] at h
    | some o =>
      rw [hx] at h
      cases o with
      | error e s' => exact .inr ⟨e, s', ⟨n, hx⟩, (Option.some.inj h).symm⟩
      | ok a s' => exact .inl ⟨a, s', ⟨n, hx⟩, ⟨n, h⟩⟩
  · rintro (⟨a, s', ⟨n, hx⟩, ⟨m, hf⟩⟩ | ⟨e, s', ⟨n, hx⟩, rfl⟩)
    · -- Fuel for the one and for the other.
      refine ⟨max n m, ?_⟩
      change (x.bind f).run (max n m) s = some r
      simp only [bind, x.mono (Nat.le_max_left n m) hx]
      exact (f a).mono (Nat.le_max_right n m) hf
    · exact ⟨n, by change (x.bind f).run n s = _; simp only [bind, hx]⟩

/-- When the first part ends with a value, the sequence ends as the second part does. -/
theorem returns_bind_of_ok {x : Prog ε σ α} {f : α → Prog ε σ β} {s s' : σ} {a : α}
    (hx : x.Returns s (.ok a s')) (r : Outcome ε σ β) :
    (x >>= f).Returns s r ↔ (f a).Returns s' r := by
  rw [returns_bind]
  constructor
  · rintro (⟨b, t, hb, hf⟩ | ⟨e, t, he, _⟩)
    · cases hx.unique hb
      exact hf
    · cases hx.unique he
  · exact fun hf => .inl ⟨a, s', hx, hf⟩

/-- When the first part ends abruptly, so does the sequence. -/
theorem returns_bind_of_error {x : Prog ε σ α} {f : α → Prog ε σ β} {s s' : σ} {e : ε}
    (hx : x.Returns s (.error e s')) (r : Outcome ε σ β) :
    (x >>= f).Returns s r ↔ r = .error e s' := by
  rw [returns_bind]
  constructor
  · rintro (⟨b, t, hb, _⟩ | ⟨e', t, he, hr⟩)
    · cases hx.unique hb
    · cases hx.unique he
      exact hr
  · exact fun hr => .inr ⟨e, s', hx, hr⟩

@[simp] theorem returns_get_bind (f : σ → Prog ε σ β) (s : σ) (r : Outcome ε σ β) :
    (get >>= f).Returns s r ↔ (f s).Returns s r :=
  returns_bind_of_ok ((returns_get s _).mpr rfl) r

@[simp] theorem returns_modify_bind (g : σ → σ) (f : Unit → Prog ε σ β) (s : σ)
    (r : Outcome ε σ β) : (modify g >>= f).Returns s r ↔ (f ()).Returns (g s) r :=
  returns_bind_of_ok ((returns_modify g s _).mpr rfl) r

@[simp] theorem returns_pure_bind (a : α) (f : α → Prog ε σ β) (s : σ) (r : Outcome ε σ β) :
    ((pure a : Prog ε σ α) >>= f).Returns s r ↔ (f a).Returns s r :=
  returns_bind_of_ok ((returns_pure a s _).mpr rfl) r

@[simp] theorem returns_throw_bind (e : ε) (f : α → Prog ε σ β) (s : σ) (r : Outcome ε σ β) :
    ((throw e : Prog ε σ α) >>= f).Returns s r ↔ r = .error e s :=
  returns_bind_of_error ((returns_throw e s _).mpr rfl) r

/-! ### Handlers and parts of the state -/

/-- Run a program and hand over how it ended, as a value. -/
def attempt (x : Prog ε σ α) : Prog ε' σ (Except ε α) where
  run := fun n s => (x.run n s).map fun
    | .ok a s' => .ok (.ok a) s'
    | .error e s' => .ok (.error e) s'
  reached := x.reached
  mono := by
    intro n m s r hnm h
    obtain ⟨o, ho, hr⟩ := Option.map_eq_some_iff.mp h
    rw [x.mono hnm ho]
    exact congrArg some hr
  reached_of_run := by
    intro n s r h
    obtain ⟨o, ho, rfl⟩ := Option.map_eq_some_iff.mp h
    rw [x.reached_of_run ho]
    cases o <;> rfl

/-- Where an exception is caught every outcome is a value. -/
theorem returns_attempt (x : Prog ε σ α) (s : σ) (r : Outcome ε' σ (Except ε α)) :
    (attempt x).Returns s r ↔
      (∃ a s', x.Returns s (.ok a s') ∧ r = .ok (.ok a) s') ∨
      (∃ e s', x.Returns s (.error e s') ∧ r = .ok (.error e) s') := by
  constructor
  · rintro ⟨n, h⟩
    obtain ⟨o, ho, hr⟩ := Option.map_eq_some_iff.mp h
    cases o with
    | ok a s' => exact .inl ⟨a, s', ⟨n, ho⟩, hr.symm⟩
    | error e s' => exact .inr ⟨e, s', ⟨n, ho⟩, hr.symm⟩
  · rintro (⟨a, s', ⟨n, ho⟩, rfl⟩ | ⟨e, s', ⟨n, ho⟩, rfl⟩) <;>
      exact ⟨n, by simp only [attempt, ho, Option.map_some]⟩

/-- What returns, returns its value. -/
theorem returns_attempt_of_ok {x : Prog ε σ α} {s s' : σ} {a : α}
    (hx : x.Returns s (.ok a s')) : (attempt x : Prog ε' σ _).Returns s (.ok (.ok a) s') :=
  (returns_attempt x s _).mpr (.inl ⟨a, s', hx, rfl⟩)

/-- What throws, returns the exception. -/
theorem returns_attempt_of_error {x : Prog ε σ α} {s s' : σ} {e : ε}
    (hx : x.Returns s (.error e s')) :
    (attempt x : Prog ε' σ _).Returns s (.ok (.error e) s') :=
  (returns_attempt x s _).mpr (.inr ⟨e, s', hx, rfl⟩)

/-- Run a program on a part of a larger state. -/
def zoom (view : τ → σ) (put : σ → τ → τ) (x : Prog ε σ α) : Prog ε τ α where
  run := fun n t => (x.run n (view t)).map fun
    | .ok a s => .ok a (put s t)
    | .error e s => .error e (put s t)
  reached := fun n t => put (x.reached n (view t)) t
  mono := by
    intro n m t r hnm h
    obtain ⟨o, ho, hr⟩ := Option.map_eq_some_iff.mp h
    rw [x.mono hnm ho]
    exact congrArg some hr
  reached_of_run := by
    intro n t r h
    obtain ⟨o, ho, rfl⟩ := Option.map_eq_some_iff.mp h
    rw [x.reached_of_run ho]
    cases o <;> rfl

/-- On a part of the state a program has the outcomes that it has there alone. -/
theorem returns_zoom (view : τ → σ) (put : σ → τ → τ) (x : Prog ε σ α) (t : τ)
    (r : Outcome ε τ α) :
    (zoom view put x).Returns t r ↔
      (∃ a s, x.Returns (view t) (.ok a s) ∧ r = .ok a (put s t)) ∨
      (∃ e s, x.Returns (view t) (.error e s) ∧ r = .error e (put s t)) := by
  constructor
  · rintro ⟨n, h⟩
    obtain ⟨o, ho, hr⟩ := Option.map_eq_some_iff.mp h
    cases o with
    | ok a s => exact .inl ⟨a, s, ⟨n, ho⟩, hr.symm⟩
    | error e s => exact .inr ⟨e, s, ⟨n, ho⟩, hr.symm⟩
  · rintro (⟨a, s, ⟨n, ho⟩, rfl⟩ | ⟨e, s, ⟨n, ho⟩, rfl⟩) <;>
      exact ⟨n, by simp only [zoom, ho, Option.map_some]⟩

/-! ### Loops -/

/-- The loop of `loop`, with its fuel: each round passes on a new value (`inl`) or ends
    the loop (`inr`). -/
def loopRun (f : α → Prog ε σ (α ⊕ β)) : ℕ → α → σ → Option (Outcome ε σ β)
  | 0, _, _ => none
  | n + 1, a, s => match (f a).run n s with
    | none => none
    | some (.error e s') => some (.error e s')
    | some (.ok (.inr b) s') => some (.ok b s')
    | some (.ok (.inl a') s') => loopRun f n a' s'

/-- More fuel does not change the outcome of a loop. -/
theorem loopRun_mono (f : α → Prog ε σ (α ⊕ β)) {n m : ℕ} {a : α} {s : σ}
    {r : Outcome ε σ β} (hnm : n ≤ m) (h : loopRun f n a s = some r) :
    loopRun f m a s = some r := by
  induction n generalizing m a s with
  | zero => simp only [loopRun, reduceCtorEq] at h
  | succ n ih =>
    obtain ⟨m, rfl⟩ : ∃ k, m = k + 1 := ⟨m - 1, by omega⟩
    simp only [loopRun] at h ⊢
    cases hf : (f a).run n s with
    | none => simp only [hf, reduceCtorEq] at h
    | some o =>
      rw [(f a).mono (by omega) hf]
      rw [hf] at h
      match o with
      | .error e s' => exact h
      | .ok (.inr b) s' => exact h
      | .ok (.inl a') s' => exact ih (by omega) h

/-- The state in which the loop ends or runs out of fuel. -/
def loopReached (f : α → Prog ε σ (α ⊕ β)) : ℕ → α → σ → σ
  | 0, _, s => s
  | n + 1, a, s => match (f a).run n s with
    | none => (f a).reached n s
    | some (.error _ s') => s'
    | some (.ok (.inr _) s') => s'
    | some (.ok (.inl a') s') => loopReached f n a' s'

/-- A loop that has ended has reached its last state. -/
theorem loopReached_of_loopRun (f : α → Prog ε σ (α ⊕ β)) {n : ℕ} {a : α} {s : σ}
    {r : Outcome ε σ β} (h : loopRun f n a s = some r) : loopReached f n a s = r.state := by
  induction n generalizing a s with
  | zero => simp only [loopRun, reduceCtorEq] at h
  | succ n ih =>
    simp only [loopRun] at h
    simp only [loopReached]
    cases hf : (f a).run n s with
    | none => simp only [hf, reduceCtorEq] at h
    | some o =>
      rw [hf] at h
      match o with
      | .error e s' => exact congrArg Outcome.state (Option.some.inj h)
      | .ok (.inr b) s' => exact congrArg Outcome.state (Option.some.inj h)
      | .ok (.inl a') s' => exact ih h

/-- Repeat `f`, starting from `a`, until a round ends the loop. -/
def loop (f : α → Prog ε σ (α ⊕ β)) (a : α) : Prog ε σ β where
  run := fun n s => loopRun f n a s
  reached := fun n s => loopReached f n a s
  mono := fun hnm h => loopRun_mono f hnm h
  reached_of_run := fun h => loopReached_of_loopRun f h

/-- A round that passes on a value: the loop goes on from it. -/
theorem returns_loop_of_next {f : α → Prog ε σ (α ⊕ β)} {a a' : α} {s s' : σ}
    (hf : (f a).Returns s (.ok (.inl a') s')) (r : Outcome ε σ β) :
    (loop f a).Returns s r ↔ (loop f a').Returns s' r := by
  constructor
  · rintro ⟨n, h⟩
    cases n with
    | zero => simp only [loop, loopRun, reduceCtorEq] at h
    | succ n =>
      simp only [loop, loopRun] at h
      cases hn : (f a).run n s with
      | none => simp only [hn, reduceCtorEq] at h
      | some o =>
        -- The first round can have gone no other way.
        cases hf.unique ⟨n, hn⟩
        simp only [hn] at h
        exact ⟨n, h⟩
  · rintro ⟨m, h⟩
    obtain ⟨n, hn⟩ := hf
    refine ⟨max n m + 1, ?_⟩
    simp only [loop, loopRun, (f a).mono (Nat.le_max_left n m) hn]
    exact loopRun_mono f (Nat.le_max_right n m) h

/-- A round that ends the loop. -/
theorem returns_loop_of_done {f : α → Prog ε σ (α ⊕ β)} {a : α} {b : β} {s s' : σ}
    (hf : (f a).Returns s (.ok (.inr b) s')) : (loop f a).Returns s (.ok b s') := by
  obtain ⟨n, hn⟩ := hf
  exact ⟨n + 1, by simp only [loop, loopRun, hn]⟩

/-- A round that ends abruptly. -/
theorem returns_loop_of_error {f : α → Prog ε σ (α ⊕ β)} {a : α} {e : ε} {s s' : σ}
    (hf : (f a).Returns s (.error e s')) : (loop f a).Returns s (.error e s') := by
  obtain ⟨n, hn⟩ := hf
  exact ⟨n + 1, by simp only [loop, loopRun, hn]⟩

/-- **Loops that end.** What every last round establishes and every other round hands back
    from the rest of the run holds of the whole run. -/
theorem Returns.loop_induction {f : α → Prog ε σ (α ⊕ β)}
    {P : α → σ → Outcome ε σ β → Prop}
    (done : ∀ a s b s', (f a).Returns s (.ok (.inr b) s') → P a s (.ok b s'))
    (fail : ∀ a s e s', (f a).Returns s (.error e s') → P a s (.error e s'))
    (next : ∀ a s a' s' r, (f a).Returns s (.ok (.inl a') s') → P a' s' r → P a s r)
    {a : α} {s : σ} {r : Outcome ε σ β} (h : (loop f a).Returns s r) : P a s r := by
  obtain ⟨n, h⟩ := h
  -- On the fuel: what a round leaves is a loop with less of it.
  induction n generalizing a s with
  | zero => simp only [loop, loopRun, reduceCtorEq] at h
  | succ n ih =>
    simp only [loop, loopRun] at h
    cases hn : (f a).run n s with
    | none => simp only [hn, reduceCtorEq] at h
    | some o =>
      rw [hn] at h
      match o with
      | .error e s' => exact Option.some.inj h ▸ fail a s e s' ⟨n, hn⟩
      | .ok (.inr b) s' => exact Option.some.inj h ▸ done a s b s' ⟨n, hn⟩
      | .ok (.inl a') s' => exact next a s a' s' r ⟨n, hn⟩ (ih h)

end Prog

end Lib
