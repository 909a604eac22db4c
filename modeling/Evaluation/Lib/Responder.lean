import Evaluation.Lib.Correct

namespace Lib

/-!
# Machines that answer inputs, and loops that work as one

* `Responder` — in a state it answers an input and goes on to another state, or fails;
* `Responder.run_concat`, `Responder.run_getElem`, `Responder.run_state` — runs over a list of
  inputs: one more input, the answer to each of them, and the state behind them;
* `Responder.run_skip` — an input that leaves the state alone is not seen by the others;
* `Takes` — the rounds of a loop of `Prog`, with the inputs that they have taken;
* `Returns.at_last` — the round in which a loop ends;
* `Takes.refines` — if each round answers its input as a machine does, and a round with no input
  leaves the state of the machine alone, the rounds make up a run of the machine.
-/

/-- A machine with states `σ`, inputs `ι` and outputs `ο` that may fail with an `ε`. -/
structure Responder (ε σ ι ο : Type) where
  step : σ → ι → Except ε (ο × σ)

namespace Responder

variable {ε σ ι ο : Type}

/-- The outputs for a list of inputs, and the state behind the last one. -/
def run (M : Responder ε σ ι ο) : σ → List ι → Except ε (List ο × σ)
  | s, [] => .ok ([], s)
  | s, i :: is => match M.step s i with
    | .error e => .error e
    | .ok (o, t) => match M.run t is with
      | .error e => .error e
      | .ok (os, u) => .ok (o :: os, u)

variable {M : Responder ε σ ι ο}

@[simp] theorem run_nil (s : σ) : M.run s [] = .ok ([], s) := rfl

theorem run_cons {s u : σ} {i : ι} {is : List ι} {os : List ο} :
    M.run s (i :: is) = .ok (os, u) ↔
      ∃ o t os', M.step s i = .ok (o, t) ∧ M.run t is = .ok (os', u) ∧ os = o :: os' := by
  simp only [run]
  rcases hstep : M.step s i with e | ⟨o, t⟩
  · simp
  · dsimp only
    rcases hrun : M.run t is with e | ⟨os', u'⟩
    · simp [hrun]
    · simp only [Except.ok.injEq, Prod.mk.injEq]
      constructor
      · rintro ⟨rfl, rfl⟩
        exact ⟨o, t, os', ⟨rfl, rfl⟩, hrun, rfl⟩
      · rintro ⟨_, _, _, ⟨rfl, rfl⟩, hrun', rfl⟩
        rw [hrun] at hrun'
        cases hrun'
        exact ⟨rfl, rfl⟩

/-- One more input. -/
theorem run_concat {s t u : σ} {is : List ι} {os : List ο} {i : ι} {o : ο}
    (h : M.run s is = .ok (os, t)) (hstep : M.step t i = .ok (o, u)) :
    M.run s (is ++ [i]) = .ok (os ++ [o], u) := by
  induction is generalizing s os with
  | nil =>
    cases h
    exact run_cons.mpr ⟨o, u, [], hstep, rfl, rfl⟩
  | cons j is ih =>
    obtain ⟨o', t', os', hj, hrest, rfl⟩ := run_cons.mp h
    exact run_cons.mpr ⟨o', t', os' ++ [o], hj, ih hrest, rfl⟩

/-- Each input gets one output. -/
theorem run_length {s u : σ} {is : List ι} {os : List ο} (h : M.run s is = .ok (os, u)) :
    os.length = is.length := by
  induction is generalizing s os with
  | nil =>
    cases h
    rfl
  | cons i is ih =>
    obtain ⟨o, t, os', -, hrest, rfl⟩ := run_cons.mp h
    rw [List.length_cons, List.length_cons, ih hrest]

/-- The inputs in two parts. -/
theorem run_append {s u : σ} {is js : List ι} {os : List ο} :
    M.run s (is ++ js) = .ok (os, u) ↔
      ∃ os₁ t os₂, M.run s is = .ok (os₁, t) ∧ M.run t js = .ok (os₂, u) ∧ os = os₁ ++ os₂ := by
  -- By the inputs of the first run: the step for one of them is a step of the whole.
  induction is generalizing s os with
  | nil =>
    constructor
    · intro h
      exact ⟨[], s, os, rfl, h, rfl⟩
    · rintro ⟨_, _, os₂, ⟨⟩, h, rfl⟩
      exact h
  | cons i is ih =>
    constructor
    · intro h
      obtain ⟨o, t, os', hi, hrest, rfl⟩ := run_cons.mp h
      obtain ⟨os₁, v, os₂, h₁, h₂, rfl⟩ := ih.mp hrest
      exact ⟨o :: os₁, v, os₂, run_cons.mpr ⟨o, t, os₁, hi, h₁, rfl⟩, h₂, rfl⟩
    · rintro ⟨os₁, v, os₂, h, h₂, rfl⟩
      obtain ⟨o, t, os', hi, h₁, rfl⟩ := run_cons.mp h
      exact run_cons.mpr ⟨o, t, os' ++ os₂, hi, ih.mpr ⟨os', v, os₂, h₁, h₂, rfl⟩, rfl⟩

/-- **An input that leaves the state alone** can be left out, with its output. -/
theorem run_skip {s u : σ} {is js : List ι} {os : List ο} {i : ι}
    (hskip : ∀ s o t, M.step s i = .ok (o, t) → t = s)
    (h : M.run s (is ++ i :: js) = .ok (os, u)) :
    ∃ os₁ t o os₂, M.step t i = .ok (o, t) ∧ os = os₁ ++ o :: os₂ ∧ os₁.length = is.length ∧
      M.run s (is ++ js) = .ok (os₁ ++ os₂, u) := by
  obtain ⟨os₁, t, os', h₁, h', rfl⟩ := run_append.mp h
  obtain ⟨o, t', os₂, hi, h₂, rfl⟩ := run_cons.mp h'
  obtain rfl := hskip t o t' hi
  exact ⟨os₁, _, o, os₂, hi, rfl, run_length h₁, run_append.mpr ⟨os₁, _, os₂, h₁, h₂, rfl⟩⟩

/-- **The answer to an input** is the one in the state behind the inputs before it. -/
theorem run_getElem {s u : σ} {is : List ι} {os : List ο} (h : M.run s is = .ok (os, u)) {n : ℕ}
    {i : ι} (hi : is[n]? = some i) :
    ∃ t o t', M.run s (is.take n) = .ok (os.take n, t) ∧ M.step t i = .ok (o, t') ∧
      os[n]? = some o := by
  induction is generalizing s os n with
  | nil => cases hi
  | cons j is ih =>
    obtain ⟨o, t, os', hj, hrest, rfl⟩ := run_cons.mp h
    cases n with
    | zero =>
      cases hi
      exact ⟨s, o, t, rfl, hj, rfl⟩
    | succ n =>
      obtain ⟨t', o', t'', htake, hstep, ho⟩ := ih hrest hi
      exact ⟨t', o', t'', run_cons.mpr ⟨o, t, _, hj, htake, rfl⟩, hstep, ho⟩

/-- **The state behind a list of inputs**, where the next state does not depend on the output. -/
theorem run_state {next : σ → ι → σ} (hnext : ∀ s i o t, M.step s i = .ok (o, t) → t = next s i)
    {s u : σ} {is : List ι} {os : List ο} (h : M.run s is = .ok (os, u)) :
    u = is.foldl next s := by
  induction is generalizing s os with
  | nil =>
    cases h
    rfl
  | cons i is ih =>
    obtain ⟨o, t, os', hi, hrest, -⟩ := run_cons.mp h
    rw [List.foldl_cons, ← hnext s i o t hi]
    exact ih hrest

end Responder

/-! ### Loops -/

namespace Prog

variable {ε σ α β ι ο : Type}

/-- The rounds from the value `a` and the state `s` to `b` and `t`, as `Passes`, and what they have
    taken: `input` is what the round from a value and a state takes, if anything. -/
inductive Takes (f : α → Prog ε σ (α ⊕ β)) (input : α → σ → Option ι) (a : α) (s : σ) :
    List ι → α → σ → Prop where
  | refl : Takes f input a s [] a s
  | next {is : List ι} {b c : α} {t u : σ} (h : Takes f input a s is b t)
      (hround : (f b).Returns t (.ok (.inl c) u)) :
      Takes f input a s (is ++ (input b t).toList) c u

variable {f : α → Prog ε σ (α ⊕ β)} {input : α → σ → Option ι} {a b : α} {s t : σ} {is : List ι}

/-- Rounds that take inputs are rounds. -/
theorem Takes.passes (h : Takes f input a s is b t) : Passes f a s b t := by
  induction h with
  | refl => exact .refl
  | next _ hround ih => exact ih.next hround

/-- Whatever rounds there are, they have taken something. -/
theorem Passes.takes (h : Passes f a s b t) (input : α → σ → Option ι) :
    ∃ is, Takes f input a s is b t := by
  induction h with
  | refl => exact ⟨[], .refl⟩
  | next _ hround ih =>
    obtain ⟨is, htakes⟩ := ih
    exact ⟨_, htakes.next hround⟩

/-- What an invariant of the rounds says of every input holds of all that are taken. -/
theorem Takes.inputs {I : α → σ → Prop} {good : ι → Prop}
    (hround : ∀ a s b t, I a s → (f a).Returns s (.ok (.inl b) t) → I b t)
    (hinput : ∀ b t i, I b t → input b t = some i → good i)
    (h : Takes f input a s is b t) (hs : I a s) : ∀ i ∈ is, good i := by
  induction h with
  | refl => simp
  | next hbefore _ ih =>
    intro i hi
    rcases List.mem_append.mp hi with hmem | hlast
    · exact ih i hmem
    · rw [Option.mem_toList] at hlast
      exact hinput _ _ i (hbefore.passes.invariant hround hs) hlast

/-- A loop that ends does so in a last round that it comes to. -/
theorem Returns.at_last {o : Outcome ε σ β} (h : (loop f a).Returns s o) :
    ∃ c t, Passes f a s c t ∧ ((∃ b s', (f c).Returns t (.ok (.inr b) s') ∧ o = .ok b s') ∨
      ∃ e s', (f c).Returns t (.error e s') ∧ o = .error e s') := by
  refine Returns.loop_induction (P := fun a s o => ∃ c t, Passes f a s c t ∧
    ((∃ b s', (f c).Returns t (.ok (.inr b) s') ∧ o = .ok b s') ∨
      ∃ e s', (f c).Returns t (.error e s') ∧ o = .error e s')) ?_ ?_ ?_ h
  · exact fun a s b s' hround => ⟨a, s, .refl, .inl ⟨b, s', hround, rfl⟩⟩
  · exact fun a s e s' hround => ⟨a, s, .refl, .inr ⟨e, s', hround, rfl⟩⟩
  · intro a s c t r hround ih
    obtain ⟨d, u, hpasses, hlast⟩ := ih
    exact ⟨d, u, hpasses.head hround, hlast⟩

/-- **Refinement.**  `state` is what the machine sees of a state of the program, and `R` holds of
    the outputs given so far.  A round with no input leaves both alone; a round with one gives the
    output of the machine. -/
theorem Takes.refines {δ μ : Type} {M : Responder δ μ ι ο} {good : ι → Prop}
    (state : σ → μ) (R : List ο → σ → Prop)
    (silent : ∀ b t c u os, (f b).Returns t (.ok (.inl c) u) → input b t = none → R os t →
      state u = state t ∧ R os u)
    (answers : ∀ b t c u os i, (f b).Returns t (.ok (.inl c) u) → input b t = some i → good i →
      R os t → ∃ o, M.step (state t) i = .ok (o, state u) ∧ R (os ++ [o]) u)
    (h : Takes f input a s is b t) (hgood : ∀ i ∈ is, good i) (hs : R [] s) :
    ∃ os, M.run (state s) is = .ok (os, state t) ∧ R os t := by
  -- By the last round, which has an input or has none.
  induction h with
  | refl => exact ⟨[], rfl, hs⟩
  | @next is b c t u _ hround ih =>
    obtain ⟨os, hrun, hos⟩ := ih fun i hi => hgood i (List.mem_append_left _ hi)
    cases hinput : input b t with
    | none =>
      obtain ⟨hstate, hu⟩ := silent b t c u os hround hinput hos
      exact ⟨os, by simpa [hstate] using hrun, hu⟩
    | some i =>
      have hi : good i := hgood i (by simp [hinput])
      obtain ⟨o, hstep, hu⟩ := answers b t c u os i hround hinput hi hos
      exact ⟨os ++ [o], Responder.run_concat hrun hstep, hu⟩

end Prog

end Lib
