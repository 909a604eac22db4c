import Mathlib.Order.WellFounded
import Evaluation.Lib.Prog

namespace Lib

/-!
# Total and partial correctness of programs

`x.Ends s Q` says that `x`, started in `s`, ends and that how it ends satisfies `Q`;
`x.Safe s Q` says the same of a program that may run forever.  `Q` speaks about values and
abrupt ends alike.

* `Ends.mono`, `Ends.of_returns` — weaker postconditions, and what is known of the outcome;
* `ends_ofFun`, `Ends.bind`, `ends_bind_of_ok`, `ends_zoom`, `Safe.bind` — the rules for the
  parts of a program;
* `ends_loop` — the rule for loops that end: an invariant, and a number that each round makes
  smaller;
* `safe_loop` — the rule for all loops: an invariant;
* `Throughout`, `Settles` — what holds all along a run, and what holds of it in the end, of runs
  that never end too;
* `Triple` — what a program leads to from every state with a precondition, with a postcondition
  for each of its two ways to end;
* `Passes` — the values and states that a loop comes to, one for each round, whether or not it ever
  returns;
* `Guarantee` — what a program may do to any state that it is started in: a preorder of states
  and the abrupt ends that are allowed, kept by sequences.
-/

namespace Prog

variable {ε ε' σ τ α β : Type}

/-- Started in `s`, the program ends, and how it ends satisfies `Q`. -/
def Ends (x : Prog ε σ α) (s : σ) (Q : Outcome ε σ α → Prop) : Prop := ∃ o, x.Returns s o ∧ Q o

/-- **Evaluation**: a run that some fuel is enough for ends as it is seen to. -/
theorem ends_of_run {x : Prog ε σ α} {n : ℕ} {s : σ} {Q : Outcome ε σ α → Bool}
    (h : (x.run n s).any Q = true) : x.Ends s fun o => Q o = true := by
  obtain ⟨o, ho, hQ⟩ := (Option.any_eq_true ..).mp h
  exact ⟨o, ⟨n, ho⟩, hQ⟩

theorem Ends.mono {x : Prog ε σ α} {s : σ} {Q R : Outcome ε σ α → Prop} (h : x.Ends s Q)
    (hQR : ∀ o, Q o → R o) : x.Ends s R := by
  obtain ⟨o, ho, hQ⟩ := h
  exact ⟨o, ho, hQR o hQ⟩

/-- What a program ends with satisfies every postcondition that it ends with. -/
theorem Ends.of_returns {x : Prog ε σ α} {s : σ} {Q : Outcome ε σ α → Prop} (h : x.Ends s Q)
    {o : Outcome ε σ α} (ho : x.Returns s o) : Q o := by
  obtain ⟨o', ho', hQ⟩ := h
  rw [ho.unique ho']
  exact hQ

@[simp] theorem ends_ofFun (f : σ → Outcome ε σ α) (s : σ) (Q : Outcome ε σ α → Prop) :
    (ofFun f).Ends s Q ↔ Q (f s) := by
  constructor
  · rintro ⟨o, ho, hQ⟩
    rw [returns_ofFun] at ho
    rwa [ho] at hQ
  · intro hQ
    exact ⟨f s, (returns_ofFun f s _).mpr rfl, hQ⟩

@[simp] theorem ends_pure (a : α) (s : σ) (Q : Outcome ε σ α → Prop) :
    (pure a : Prog ε σ α).Ends s Q ↔ Q (.ok a s) := ends_ofFun _ s Q

@[simp] theorem ends_throw (e : ε) (s : σ) (Q : Outcome ε σ α → Prop) :
    (throw e : Prog ε σ α).Ends s Q ↔ Q (.error e s) := ends_ofFun _ s Q

/-- **Sequencing.** -/
theorem Ends.bind {x : Prog ε σ α} {f : α → Prog ε σ β} {s : σ} {R : Outcome ε σ α → Prop}
    {Q : Outcome ε σ β → Prop} (hx : x.Ends s R)
    (hok : ∀ a s', R (.ok a s') → (f a).Ends s' Q)
    (herror : ∀ e s', R (.error e s') → Q (.error e s')) : (x >>= f).Ends s Q := by
  obtain ⟨o, ho, hR⟩ := hx
  cases o with
  | ok a s' =>
    obtain ⟨o', ho', hQ⟩ := hok a s' hR
    exact ⟨o', (returns_bind_of_ok ho o').mpr ho', hQ⟩
  | error e s' =>
    exact ⟨.error e s', (returns_bind_of_error ho _).mpr rfl, herror e s' hR⟩

/-- Sequencing behind a first part whose value is known. -/
theorem ends_bind_of_ok {x : Prog ε σ α} {f : α → Prog ε σ β} {s s' : σ} {a : α}
    (hx : x.Returns s (.ok a s')) (Q : Outcome ε σ β → Prop) :
    (x >>= f).Ends s Q ↔ (f a).Ends s' Q := by
  unfold Ends
  simp only [returns_bind_of_ok hx]

/-- Sequencing behind a first part that ends abruptly. -/
theorem ends_bind_of_error {x : Prog ε σ α} {f : α → Prog ε σ β} {s s' : σ} {e : ε}
    (hx : x.Returns s (.error e s')) (Q : Outcome ε σ β → Prop) :
    (x >>= f).Ends s Q ↔ Q (.error e s') := by
  unfold Ends
  simp only [returns_bind_of_error hx, exists_eq_left]

/-- How a program on a part of the state ends for the whole. -/
def Outcome.within (put : σ → τ → τ) (t : τ) : Outcome ε σ α → Outcome ε τ α
  | .ok a s => .ok a (put s t)
  | .error e s => .error e (put s t)

/-- On a part of the state a program ends as it does on that part alone. -/
theorem ends_zoom (view : τ → σ) (put : σ → τ → τ) (x : Prog ε σ α) (t : τ)
    (Q : Outcome ε τ α → Prop) :
    (zoom view put x).Ends t Q ↔ x.Ends (view t) fun o => Q (Outcome.within put t o) := by
  constructor
  · rintro ⟨o, ho, hQ⟩
    rcases (returns_zoom view put x t o).mp ho with ⟨a, s, hx, rfl⟩ | ⟨e, s, hx, rfl⟩
    · exact ⟨_, hx, hQ⟩
    · exact ⟨_, hx, hQ⟩
  · rintro ⟨o, ho, hQ⟩
    cases o with
    | ok a s => exact ⟨_, (returns_zoom view put x t _).mpr (.inl ⟨a, s, ho, rfl⟩), hQ⟩
    | error e s => exact ⟨_, (returns_zoom view put x t _).mpr (.inr ⟨e, s, ho, rfl⟩), hQ⟩

/-- What a round of a loop is to establish: `I` of the value that it passes on, or `Q` of how the
    loop ends. -/
def AfterRound (I : α → σ → Prop) (Q : Outcome ε σ β → Prop) : Outcome ε σ (α ⊕ β) → Prop
  | .ok (.inl a) s => I a s
  | .ok (.inr b) s => Q (.ok b s)
  | .error e s => Q (.error e s)

/-- **Loops.**  The invariant `I` holds before each round; a round that goes on keeps it and
    makes the number `μ` smaller, and a round that ends the loop establishes `Q`. -/
theorem ends_loop {f : α → Prog ε σ (α ⊕ β)} {Q : Outcome ε σ β → Prop} (I : α → σ → Prop)
    (μ : α → σ → ℕ)
    (round : ∀ a s, I a s → (f a).Ends s (AfterRound (fun a' s' => I a' s' ∧ μ a' s' < μ a s) Q))
    {a : α} {s : σ} (h : I a s) : (loop f a).Ends s Q := by
  induction hn : μ a s using Nat.strong_induction_on generalizing a s with
  | _ n ih =>
    obtain ⟨o, hf, hQ⟩ := round a s h
    match o, hQ with
    | .ok (.inl a') s', ⟨hI, hlt⟩ =>
      obtain ⟨o, ho, hQ⟩ := ih _ (by rw [← hn]; exact hlt) hI rfl
      exact ⟨o, (returns_loop_of_next hf o).mpr ho, hQ⟩
    | .ok (.inr b) s', hQ => exact ⟨_, returns_loop_of_done hf, hQ⟩
    | .error e s', hQ => exact ⟨_, returns_loop_of_error hf, hQ⟩

/-! ### Partial correctness -/

/-- However the program, started in `s`, ends, that satisfies `Q`. -/
def Safe (x : Prog ε σ α) (s : σ) (Q : Outcome ε σ α → Prop) : Prop := ∀ o, x.Returns s o → Q o

theorem Safe.mono {x : Prog ε σ α} {s : σ} {Q R : Outcome ε σ α → Prop} (h : x.Safe s Q)
    (hQR : ∀ o, Q o → R o) : x.Safe s R := fun o ho => hQR o (h o ho)

/-- A program that ends so ends in no other way. -/
theorem Ends.safe {x : Prog ε σ α} {s : σ} {Q : Outcome ε σ α → Prop} (h : x.Ends s Q) :
    x.Safe s Q := fun _ ho => h.of_returns ho

@[simp] theorem safe_ofFun (f : σ → Outcome ε σ α) (s : σ) (Q : Outcome ε σ α → Prop) :
    (ofFun f).Safe s Q ↔ Q (f s) := by
  simp only [Safe, returns_ofFun, forall_eq]

@[simp] theorem safe_pure (a : α) (s : σ) (Q : Outcome ε σ α → Prop) :
    (pure a : Prog ε σ α).Safe s Q ↔ Q (.ok a s) := safe_ofFun _ s Q

/-- On a part of the state a program has the ends that it has there alone. -/
theorem safe_zoom (view : τ → σ) (put : σ → τ → τ) (x : Prog ε σ α) (t : τ)
    (Q : Outcome ε τ α → Prop) :
    (zoom view put x).Safe t Q ↔ x.Safe (view t) fun o => Q (Outcome.within put t o) := by
  constructor
  · intro h o ho
    apply h
    cases o with
    | ok a s => exact (returns_zoom view put x t _).mpr (.inl ⟨a, s, ho, rfl⟩)
    | error e s => exact (returns_zoom view put x t _).mpr (.inr ⟨e, s, ho, rfl⟩)
  · intro h o ho
    rcases (returns_zoom view put x t o).mp ho with ⟨a, s, hx, rfl⟩ | ⟨e, s, hx, rfl⟩
    · exact h _ hx
    · exact h _ hx

/-- Sequencing behind a first part whose value is known. -/
theorem safe_bind_of_ok {x : Prog ε σ α} {f : α → Prog ε σ β} {s s' : σ} {a : α}
    (hx : x.Returns s (.ok a s')) (Q : Outcome ε σ β → Prop) :
    (x >>= f).Safe s Q ↔ (f a).Safe s' Q := by
  simp only [Safe, returns_bind_of_ok hx]

@[simp] theorem safe_get_bind (f : σ → Prog ε σ β) (s : σ) (Q : Outcome ε σ β → Prop) :
    (get >>= f).Safe s Q ↔ (f s).Safe s Q := safe_bind_of_ok ((returns_get ..).mpr rfl) Q

@[simp] theorem safe_modify_bind (g : σ → σ) (f : Unit → Prog ε σ β) (s : σ)
    (Q : Outcome ε σ β → Prop) : (modify g >>= f).Safe s Q ↔ (f ()).Safe (g s) Q :=
  safe_bind_of_ok ((returns_modify ..).mpr rfl) Q

/-- **Sequencing.** -/
theorem Safe.bind {x : Prog ε σ α} {f : α → Prog ε σ β} {s : σ} {R : Outcome ε σ α → Prop}
    {Q : Outcome ε σ β → Prop} (hx : x.Safe s R)
    (hok : ∀ a s', R (.ok a s') → (f a).Safe s' Q)
    (herror : ∀ e s', R (.error e s') → Q (.error e s')) : (x >>= f).Safe s Q := by
  intro o ho
  rcases (returns_bind x f s o).mp ho with ⟨a, s', ha, hf⟩ | ⟨e, s', he, rfl⟩
  · exact hok a s' (hx _ ha) o hf
  · exact herror e s' (hx _ he)

/-- **Loops.**  The invariant `I` holds before each round, and a round that ends the loop
    establishes `Q`. -/
theorem safe_loop {f : α → Prog ε σ (α ⊕ β)} {Q : Outcome ε σ β → Prop} (I : α → σ → Prop)
    (round : ∀ a s, I a s → (f a).Safe s (AfterRound I Q)) {a : α} {s : σ} (h : I a s) :
    (loop f a).Safe s Q := by
  intro o ho
  refine Returns.loop_induction (P := fun a s o => I a s → Q o) ?_ ?_ ?_ ho h
  · exact fun a s b s' hf hI => round a s hI _ hf
  · exact fun a s e s' hf hI => round a s hI _ hf
  · exact fun a s a' s' o hf ih hI => ih (round a s hI _ hf)

/-- Total correctness from termination and partial correctness. -/
theorem Ends.of_safe {x : Prog ε σ α} {s : σ} {P Q : Outcome ε σ α → Prop} (h : x.Ends s P)
    (hQ : x.Safe s Q) : x.Ends s Q := by
  obtain ⟨o, ho, -⟩ := h
  exact ⟨o, ho, hQ o ho⟩

/-! ### Runs that may never end -/

/-- However much fuel the run gets, the state that it reaches satisfies `P`. -/
def Throughout (x : Prog ε σ α) (s : σ) (P : σ → Prop) : Prop := ∀ n, P (x.reached n s)

/-- From some amount of fuel on, the state that the run reaches satisfies `P`. -/
def Settles (x : Prog ε σ α) (s : σ) (P : σ → Prop) : Prop := ∃ n, ∀ m, n ≤ m → P (x.reached m s)

theorem Throughout.mono {x : Prog ε σ α} {s : σ} {P P' : σ → Prop} (h : x.Throughout s P)
    (hP : ∀ s', P s' → P' s') : x.Throughout s P' := fun n => hP _ (h n)

/-- What holds all along holds from some time on. -/
theorem Throughout.settles {x : Prog ε σ α} {s : σ} {P : σ → Prop} (h : x.Throughout s P) :
    x.Settles s P := ⟨0, fun m _ => h m⟩

theorem Settles.mono {x : Prog ε σ α} {s : σ} {P P' : σ → Prop} (h : x.Settles s P)
    (hP : ∀ s', P s' → P' s') : x.Settles s P' := by
  obtain ⟨n, hn⟩ := h
  exact ⟨n, fun m hm => hP _ (hn m hm)⟩

/-- A run settles on what it settles on one by one. -/
theorem Settles.and {x : Prog ε σ α} {s : σ} {P P' : σ → Prop} (h : x.Settles s P)
    (h' : x.Settles s P') : x.Settles s fun s' => P s' ∧ P' s' := by
  obtain ⟨n, hn⟩ := h
  obtain ⟨n', hn'⟩ := h'
  refine ⟨max n n', fun m hm => ⟨hn m ?_, hn' m ?_⟩⟩
  · exact le_trans (Nat.le_max_left ..) hm
  · exact le_trans (Nat.le_max_right ..) hm

/-- There is a state that it settles on. -/
theorem Settles.exists {x : Prog ε σ α} {s : σ} {P : σ → Prop} (h : x.Settles s P) :
    ∃ n, P (x.reached n s) := by
  obtain ⟨n, hn⟩ := h
  exact ⟨n, hn n (le_refl n)⟩

/-- A run that ends stays in the state in which it has ended. -/
theorem Returns.reached {x : Prog ε σ α} {s : σ} {o : Outcome ε σ α} (h : x.Returns s o) :
    ∃ n, ∀ m, n ≤ m → x.reached m s = o.state := by
  obtain ⟨n, hn⟩ := h
  exact ⟨n, fun m hm => x.reached_of_run (x.mono hm hn)⟩

/-- It settles on what holds at its end, and on nothing else. -/
theorem Returns.settles_iff {x : Prog ε σ α} {s : σ} {o : Outcome ε σ α} (h : x.Returns s o)
    {P : σ → Prop} : x.Settles s P ↔ P o.state := by
  obtain ⟨n, hn⟩ := h.reached
  constructor
  · rintro ⟨k, hk⟩
    rw [← hn (max n k) (Nat.le_max_left ..)]
    exact hk _ (Nat.le_max_right ..)
  · intro hP
    refine ⟨n, fun m hm => ?_⟩
    rw [hn m hm]
    exact hP

/-- So does one that satisfies a postcondition about the state. -/
theorem Ends.settles {x : Prog ε σ α} {s : σ} {P : σ → Prop} (h : x.Ends s fun o => P o.state) :
    x.Settles s P := by
  obtain ⟨o, ho, hP⟩ := h
  exact ho.settles_iff.mpr hP

/-- What holds all along holds at the end. -/
theorem Throughout.of_returns {x : Prog ε σ α} {s : σ} {P : σ → Prop} (h : x.Throughout s P)
    {o : Outcome ε σ α} (ho : x.Returns s o) : P o.state := ho.settles_iff.mp h.settles

/-- What holds all along holds at every end. -/
theorem Throughout.safe {x : Prog ε σ α} {s : σ} {P : σ → Prop} (h : x.Throughout s P) :
    x.Safe s fun o => P o.state := fun _ ho => h.of_returns ho

/-- The state that a sequence reaches: that of the first part while it runs, then that of the
    second. -/
theorem reached_bind (x : Prog ε σ α) (f : α → Prog ε σ β) (n : ℕ) (s : σ) :
    (x >>= f).reached n s = x.reached n s ∨
      ∃ a s', x.Returns s (.ok a s') ∧ (x >>= f).reached n s = (f a).reached n s' := by
  show (x.bind f).reached n s = _ ∨ ∃ a s', _ ∧ (x.bind f).reached n s = _
  unfold Prog.bind
  dsimp only
  cases hx : x.run n s with
  | none => exact .inl rfl
  | some o =>
    cases o with
    | error e s' => exact .inl (x.reached_of_run hx).symm
    | ok a s' => exact .inr ⟨a, s', ⟨n, hx⟩, rfl⟩

/-- **Sequencing.** -/
theorem Throughout.bind {x : Prog ε σ α} {f : α → Prog ε σ β} {s : σ} {P : σ → Prop}
    (hx : x.Throughout s P) (hf : ∀ a s', x.Returns s (.ok a s') → (f a).Throughout s' P) :
    (x >>= f).Throughout s P := by
  intro n
  obtain hfirst | ⟨a, s', ha, hsecond⟩ := reached_bind x f n s
  · rw [hfirst]
    exact hx n
  · rw [hsecond]
    exact hf a s' ha n

/-- A first part that needs no fuel. -/
theorem throughout_ofFun_bind {g : σ → Outcome ε σ α} {f : α → Prog ε σ β} {s s' : σ} {a : α}
    (hg : g s = .ok a s') (P : σ → Prop) :
    (ofFun g >>= f).Throughout s P ↔ (f a).Throughout s' P := by
  have hreached : ∀ n, (ofFun g >>= f).reached n s = (f a).reached n s' := by
    intro n
    show ((ofFun g).bind f).reached n s = _
    simp only [Prog.bind, ofFun, hg]
  simp only [Throughout, hreached]

/-- **Sequencing** behind a first part that ends. -/
theorem settles_bind_of_ok {x : Prog ε σ α} {f : α → Prog ε σ β} {s s' : σ} {a : α}
    (hx : x.Returns s (.ok a s')) (P : σ → Prop) :
    (x >>= f).Settles s P ↔ (f a).Settles s' P := by
  obtain ⟨k, hk⟩ := hx
  have hreached : ∀ m, k ≤ m → (x >>= f).reached m s = (f a).reached m s' := by
    intro m hm
    show (x.bind f).reached m s = _
    simp only [Prog.bind, x.mono hm hk]
  constructor
  all_goals
    rintro ⟨n, hn⟩
    refine ⟨max k n, fun m hm => ?_⟩
    have hP := hn m (le_trans (Nat.le_max_right ..) hm)
  · rwa [hreached m (le_trans (Nat.le_max_left ..) hm)] at hP
  · rwa [hreached m (le_trans (Nat.le_max_left ..) hm)]

/-- Sequencing behind a first part that may not end. -/
theorem Settles.bind {x : Prog ε σ α} {f : α → Prog ε σ β} {s : σ} {P : σ → Prop}
    (hx : x.Settles s P) (hf : ∀ a s', x.Returns s (.ok a s') → (f a).Settles s' P) :
    (x >>= f).Settles s P := by
  by_cases hend : ∃ a s', x.Returns s (.ok a s')
  · obtain ⟨a, s', ha⟩ := hend
    exact (settles_bind_of_ok ha P).mpr (hf a s' ha)
  · obtain ⟨n, hn⟩ := hx
    refine ⟨n, fun m hm => ?_⟩
    obtain hfirst | ⟨a, s', ha, -⟩ := reached_bind x f m s
    · rw [hfirst]
      exact hn m hm
    · exact absurd ⟨a, s', ha⟩ hend

/-! ### Triples -/

/-- A value and a state with `J` behind a program that returns, and a state with `Q` behind an
    abrupt end. -/
def Within (J : α → σ → Prop) (Q : ε → σ → Prop) : Outcome ε σ α → Prop
  | .ok a s => J a s
  | .error e s => Q e s

/-- From every state with `I` the program leads to `J` if it returns, and to `Q` if it ends
    abruptly. -/
def Triple (I : σ → Prop) (x : Prog ε σ α) (J : α → σ → Prop) (Q : ε → σ → Prop) : Prop :=
  ∀ s, I s → x.Safe s (Within J Q)

variable {I : σ → Prop} {J : α → σ → Prop} {K : β → σ → Prop} {Q : ε → σ → Prop}

/-- A triple, where the program returns a value. -/
theorem Triple.ok {x : Prog ε σ α} (h : Triple I x J Q) {s s' : σ} {a : α} (hs : I s)
    (hx : x.Returns s (.ok a s')) : J a s' := h s hs _ hx

/-- A triple, where the program ends abruptly. -/
theorem Triple.error {x : Prog ε σ α} (h : Triple I x J Q) {s s' : σ} {e : ε} (hs : I s)
    (hx : x.Returns s (.error e s')) : Q e s' := h s hs _ hx

/-- A weaker postcondition. -/
theorem Triple.mono {x : Prog ε σ α} {J' : α → σ → Prop} (h : Triple I x J Q)
    (hJ : ∀ a s, J a s → J' a s) : Triple I x J' Q := by
  intro s hs o ho
  have hwithin := h s hs o ho
  cases o with
  | ok a s' => exact hJ a s' hwithin
  | error e s' => exact hwithin

theorem Triple.bind {x : Prog ε σ α} {f : α → Prog ε σ β} (hx : Triple I x J Q)
    (hf : ∀ a, Triple (J a) (f a) K Q) : Triple I (x >>= f) K Q := by
  intro s hs
  refine (hx s hs).bind ?_ ?_
  · exact fun a s' hs' => hf a s' hs'
  · exact fun e s' he => he

theorem triple_ofFun {f : σ → Outcome ε σ α} (h : ∀ s, I s → Within J Q (f s)) :
    Triple I (ofFun f) J Q := fun s hs => (safe_ofFun ..).mpr (h s hs)

theorem triple_pure (a : α) : Triple (J a) (pure a : Prog ε σ α) J Q :=
  triple_ofFun fun _ hs => hs

theorem triple_throw {e : ε} (h : ∀ s, I s → Q e s) : Triple I (throw e : Prog ε σ α) J Q :=
  triple_ofFun h

/-- **Loops.**  A round passes the invariant on, or leads to the postcondition. -/
theorem triple_loop {f : α → Prog ε σ (α ⊕ β)} {I : α → σ → Prop}
    (h : ∀ a, Triple (I a) (f a) (Sum.elim I K) Q) (a : α) : Triple (I a) (loop f a) K Q := by
  intro s hs
  refine safe_loop I ?_ hs
  intro a s hs
  refine (h a s hs).mono ?_
  rintro (⟨_ | _, s'⟩ | ⟨e, s'⟩) ho
  all_goals exact ho

/-! ### The rounds of a loop -/

/-- From the value `a` and the state `s` the loop comes, round by round, to `b` and `t`. -/
inductive Passes (f : α → Prog ε σ (α ⊕ β)) (a : α) (s : σ) : α → σ → Prop where
  | refl : Passes f a s a s
  | next {b c : α} {t u : σ} (h : Passes f a s b t) (hround : (f b).Returns t (.ok (.inl c) u)) :
      Passes f a s c u

/-- Another round at the front. -/
theorem Passes.head {f : α → Prog ε σ (α ⊕ β)} {a b c : α} {s t u : σ}
    (hround : (f a).Returns s (.ok (.inl b) t)) (h : Passes f b t c u) : Passes f a s c u := by
  induction h with
  | refl => exact .next .refl hround
  | next _ hround ih => exact ih.next hround

/-- A loop ends as it does from a round that it comes to. -/
theorem Passes.returns_iff {f : α → Prog ε σ (α ⊕ β)} {a b : α} {s t : σ}
    (h : Passes f a s b t) (r : Outcome ε σ β) :
    (loop f a).Returns s r ↔ (loop f b).Returns t r := by
  induction h with
  | refl => exact Iff.rfl
  | next _ hround ih => exact ih.trans (returns_loop_of_next hround r)

/-- A loop that returns comes to its last round. -/
theorem Returns.last_round {f : α → Prog ε σ (α ⊕ β)} {a : α} {s s' : σ} {b : β}
    (h : (loop f a).Returns s (.ok b s')) :
    ∃ c t, Passes f a s c t ∧ (f c).Returns t (.ok (.inr b) s') := by
  refine Returns.loop_induction (P := fun a s o => o = .ok b s' →
    ∃ c t, Passes f a s c t ∧ (f c).Returns t (.ok (.inr b) s')) ?_ ?_ ?_ h rfl
  · rintro a s b s' hround ⟨⟩
    exact ⟨a, s, .refl, hround⟩
  · rintro a s e s' - ⟨⟩
  · intro a s c t r hround ih hr
    obtain ⟨d, u, hpasses, hlast⟩ := ih hr
    exact ⟨d, u, hpasses.head hround, hlast⟩

/-- What holds at first and what each round passes on holds of every round. -/
theorem Passes.invariant {f : α → Prog ε σ (α ⊕ β)} {I : α → σ → Prop}
    (hround : ∀ a s b t, I a s → (f a).Returns s (.ok (.inl b) t) → I b t) {a b : α} {s t : σ}
    (h : Passes f a s b t) (hs : I a s) : I b t := by
  induction h with
  | refl => exact hs
  | next _ hnext ih => exact hround _ _ _ _ ih hnext

end Prog

/-! ### Guarantees -/

/-- How the state may change, and how a program that is started in a state may end abruptly. -/
structure Guarantee (ε σ : Type) where
  rel : σ → σ → Prop
  halts : σ → ε → Prop
  refl : ∀ s, rel s s
  trans : ∀ {s s' s''}, rel s s' → rel s' s'' → rel s s''
  earlier : ∀ {s s' e}, rel s s' → halts s' e → halts s e

namespace Guarantee

variable {ε σ α β : Type} (G : Guarantee ε σ)

/-- How a program that is started in `s` may end. -/
def Post (s : σ) : Outcome ε σ α → Prop
  | .ok _ s' => G.rel s s'
  | .error e s' => G.rel s s' ∧ G.halts s e

/-- Wherever it is started, the program ends and keeps the guarantee. -/
def Kept (x : Prog ε σ α) : Prop := ∀ s, x.Ends s (G.Post s)

variable {G}

/-- A guarantee relates where a program starts and where it ends. -/
theorem Post.rel {s : σ} {o : Outcome ε σ α} (h : G.Post s o) : G.rel s o.state := by
  cases o with
  | ok a s' => exact h
  | error e s' => exact h.1

/-- A guarantee that is kept from a later state on is kept from the start on. -/
theorem Post.trans {s s' : σ} {o : Outcome ε σ α} (h : G.rel s s') (ho : G.Post s' o) :
    G.Post s o := by
  cases o with
  | ok a s'' => exact G.trans h ho
  | error e s'' => exact ⟨G.trans h ho.1, G.earlier h ho.2⟩

/-- A guarantee may be counted from an earlier state. -/
theorem ends_of_rel {x : Prog ε σ α} {s s' : σ} (h : G.rel s s') (hx : x.Ends s' (G.Post s')) :
    x.Ends s' (G.Post s) := hx.mono fun _ ho => Post.trans h ho

/-- **Sequencing**, from one state on. -/
theorem ends_bind {x : Prog ε σ α} {f : α → Prog ε σ β} {s : σ} (hx : x.Ends s (G.Post s))
    (hf : ∀ a s', G.rel s s' → (f a).Ends s' (G.Post s')) : (x >>= f).Ends s (G.Post s) := by
  refine hx.bind ?_ ?_
  · intro a s' h
    exact ends_of_rel h (hf a s' h)
  · intro e s' h
    exact h

theorem Kept.bind {x : Prog ε σ α} {f : α → Prog ε σ β} (hx : G.Kept x)
    (hf : ∀ a, G.Kept (f a)) : G.Kept (x >>= f) :=
  fun s => ends_bind (hx s) fun a s' _ => hf a s'

theorem kept_pure (a : α) : G.Kept (pure a : Prog ε σ α) :=
  fun s => (Prog.ends_pure ..).mpr (G.refl s)

theorem kept_ofFun {f : σ → Outcome ε σ α} (h : ∀ s, G.Post s (f s)) : G.Kept (Prog.ofFun f) :=
  fun s => (Prog.ends_ofFun ..).mpr (h s)

variable (G) in
/-- Wherever the program is started, the state is related to that one all along its run, whether or
    not the run ends. -/
def Held (x : Prog ε σ α) : Prop := ∀ s, x.Throughout s (G.rel s)

/-- A relation that is held all along is held at the end. -/
theorem Held.of_returns {x : Prog ε σ α} (h : G.Held x) {s : σ} {o : Outcome ε σ α}
    (ho : x.Returns s o) : G.rel s o.state := (h s).of_returns ho

theorem held_ofFun {f : σ → Outcome ε σ α} (h : ∀ s, G.rel s (f s).state) :
    G.Held (Prog.ofFun f) := fun s _ => h s

theorem held_pure (a : α) : G.Held (pure a : Prog ε σ α) := held_ofFun G.refl

/-- **Sequencing.** -/
theorem Held.bind {x : Prog ε σ α} {f : α → Prog ε σ β} (hx : G.Held x)
    (hf : ∀ a, G.Held (f a)) : G.Held (x >>= f) := by
  intro s
  refine (hx s).bind fun a s' ha => ?_
  exact (hf a s').mono fun _ h => G.trans (hx.of_returns ha) h

end Guarantee

end Lib
