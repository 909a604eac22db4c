import Evaluation.Lib.Correct

namespace Lib

/-!
# Checked preconditions

A program calls library functions whose preconditions it does not test.  Its checked version tests
each of them where the call stands, and ends with a violation at the first one that fails and that
is enforced; what a handler catches in the program are exceptions, never a violation.

* `require`, `lift`, `catching` — the parts of a checked program;
* `Checks enforced x y` — `x` is a checked version of `y`: where `y` ends, `x` ends in the same way
  or with a violation; `Checks.returns` — with nothing enforced, in the same way;
* `Meets enforced x s o C` — from `s` the checked program `x` ends with `o` if the condition `C`
  holds, and with a violation if it does not.  The rules collect the condition of a whole program
  from those of its parts; `Meets.unviolated_iff` reads it off.
-/

variable {ε ε' π σ α β γ : Type}

/-- How a checked program ends abruptly. -/
inductive Fault (ε π : Type) where
  | thrown (e : ε)
  | violated (p : π)
  deriving DecidableEq, Repr

namespace Outcome

/-- The outcome of a checked program in which no check has failed. -/
def lift : Outcome ε σ α → Outcome (Fault ε π) σ α
  | .ok a s => .ok a s
  | .error e s => .error (.thrown e) s

/-- What a handler of exceptions makes of it. -/
def caught : Outcome (Fault ε π) σ α → Outcome (Fault ε π) σ (Except ε α)
  | .ok a s => .ok (.ok a) s
  | .error (.thrown e) s => .ok (.error e) s
  | .error (.violated p) s => .error (.violated p) s

end Outcome

namespace Prog

/-- Change how a program ends. -/
def mapOutcome (f : Outcome ε σ α → Outcome ε' σ β) (x : Prog ε σ α) : Prog ε' σ β where
  run := fun n s => (x.run n s).map f
  reached := fun n s => ((x.run n s).map fun o => (f o).state).getD (x.reached n s)
  mono := by
    intro n m s r hnm h
    obtain ⟨o, ho, hr⟩ := Option.map_eq_some_iff.mp h
    rw [x.mono hnm ho]
    exact congrArg some hr
  reached_of_run := by
    intro n s r h
    obtain ⟨o, ho, rfl⟩ := Option.map_eq_some_iff.mp h
    rw [ho]
    rfl

/-- The ends of a program whose outcome is mapped. -/
theorem returns_mapOutcome (f : Outcome ε σ α → Outcome ε' σ β) (x : Prog ε σ α) (s : σ)
    (r : Outcome ε' σ β) : (mapOutcome f x).Returns s r ↔ ∃ o, x.Returns s o ∧ r = f o := by
  constructor
  · rintro ⟨n, h⟩
    obtain ⟨o, ho, hr⟩ := Option.map_eq_some_iff.mp h
    exact ⟨o, ⟨n, ho⟩, hr.symm⟩
  · rintro ⟨o, ⟨n, ho⟩, rfl⟩
    exact ⟨n, by simp only [mapOutcome, ho, Option.map_some]⟩

/-- A program with no checks in it. -/
def lift (x : Prog ε σ α) : Prog (Fault ε π) σ α := mapOutcome Outcome.lift x

/-- Run a checked program and hand over what it returns or throws. -/
def catching (x : Prog (Fault ε π) σ α) : Prog (Fault ε π) σ (Except ε α) :=
  mapOutcome Outcome.caught x

/-- Check a precondition. -/
def require (enforced : π → Bool) (p : π) (holds : Bool) : Prog (Fault ε π) σ Unit :=
  if enforced p && !holds then throw (.violated p) else pure ()

/-- A program without checks ends as it did. -/
theorem Returns.lift {x : Prog ε σ α} {s : σ} {o : Outcome ε σ α} (h : x.Returns s o) :
    (Prog.lift x : Prog (Fault ε π) σ α).Returns s o.lift :=
  (returns_mapOutcome _ x s _).mpr ⟨o, h, rfl⟩

/-- It returns what it returned. -/
theorem returns_lift_ok {x : Prog ε σ α} {s s' : σ} {a : α} :
    (Prog.lift x : Prog (Fault ε π) σ α).Returns s (.ok a s') ↔ x.Returns s (.ok a s') := by
  refine ⟨fun h => ?_, Returns.lift⟩
  obtain ⟨o, ho, heq⟩ := (returns_mapOutcome ..).mp h
  cases o with
  | ok a s' =>
    cases heq
    exact ho
  | error e s' => cases heq

/-- Behind a `catch` every exception has become a value. -/
theorem Returns.caught {x : Prog (Fault ε π) σ α} {s : σ} {o : Outcome (Fault ε π) σ α}
    (h : x.Returns s o) : (catching x).Returns s o.caught :=
  (returns_mapOutcome _ x s _).mpr ⟨o, h, rfl⟩

/-- Some enforced check fails. -/
def Violates (enforced : π → Bool) (x : Prog (Fault ε π) σ α) (s : σ) : Prop :=
  ∃ p s', enforced p = true ∧ x.Returns s (.error (.violated p) s')

variable {enforced : π → Bool}

theorem Violates.bind {x : Prog (Fault ε π) σ α} {s : σ} (h : Violates enforced x s)
    (f : α → Prog (Fault ε π) σ β) : Violates enforced (x >>= f) s := by
  obtain ⟨p, s', hp, hret⟩ := h
  exact ⟨p, s', hp, (returns_bind_of_error hret _).mpr rfl⟩

/-- What fails in the first round fails in the loop. -/
theorem Violates.loop {f : α → Prog (Fault ε π) σ (α ⊕ β)} {a : α} {s : σ}
    (h : Violates enforced (f a) s) : Violates enforced (Prog.loop f a) s := by
  obtain ⟨p, s', hp, hret⟩ := h
  exact ⟨p, s', hp, returns_loop_of_error hret⟩

/-! ### Checked versions -/

/-- `x` is a checked version of `y`, started in `s`. -/
def ChecksAt (enforced : π → Bool) (x : Prog (Fault ε π) σ α) (y : Prog ε σ α) (s : σ) : Prop :=
  ∀ o, y.Returns s o → x.Returns s o.lift ∨ Violates enforced x s

/-- **A checked version**: it ends as the program does, or with a violation. -/
def Checks (enforced : π → Bool) (x : Prog (Fault ε π) σ α) (y : Prog ε σ α) : Prop :=
  ∀ s, ChecksAt enforced x y s

/-- With nothing enforced a checked version is the program. -/
theorem Checks.returns {x : Prog (Fault ε π) σ α} {y : Prog ε σ α}
    (h : Checks (fun _ => false) x y) {s : σ} {o : Outcome ε σ α} (ho : y.Returns s o) :
    x.Returns s o.lift := by
  rcases h s o ho with hx | ⟨p, s', ⟨⟩, -⟩
  exact hx

/-- A program without checks checks itself. -/
theorem checks_lift (y : Prog ε σ α) : Checks enforced (lift y) y :=
  fun _ _ ho => .inl ho.lift

theorem checks_pure (a : α) : Checks enforced (pure a) (pure a : Prog ε σ α) := by
  intro s o ho
  rw [returns_pure] at ho
  rw [ho]
  exact .inl ((returns_pure a s _).mpr rfl)

theorem checks_modify (f : σ → σ) : Checks enforced (modify f) (modify f : Prog ε σ Unit) := by
  intro s o ho
  rw [returns_modify] at ho
  rw [ho]
  exact .inl ((returns_modify f s _).mpr rfl)

theorem checksAt_get_bind {f : σ → Prog (Fault ε π) σ α} {g : σ → Prog ε σ α} {s : σ}
    (h : ChecksAt enforced (f s) (g s) s) : ChecksAt enforced (get >>= f) (get >>= g) s := by
  intro o ho
  rw [returns_get_bind] at ho
  rcases h o ho with hx | ⟨p, s', hp, hx⟩
  · exact .inl ((returns_get_bind f s _).mpr hx)
  · exact .inr ⟨p, s', hp, (returns_get_bind f s _).mpr hx⟩

theorem Checks.get_bind {f : σ → Prog (Fault ε π) σ α} {g : σ → Prog ε σ α}
    (h : ∀ s, Checks enforced (f s) (g s)) : Checks enforced (get >>= f) (get >>= g) :=
  fun s => checksAt_get_bind (h s s)

/-- **Sequencing.** -/
theorem Checks.bind {x : Prog (Fault ε π) σ α} {y : Prog ε σ α}
    {f : α → Prog (Fault ε π) σ β} {g : α → Prog ε σ β} (hx : Checks enforced x y)
    (hf : ∀ a, Checks enforced (f a) (g a)) : Checks enforced (x >>= f) (y >>= g) := by
  intro s o ho
  rcases (returns_bind y g s o).mp ho with ⟨a, s', hy, hg⟩ | ⟨e, s', hy, rfl⟩
  · rcases hx s _ hy with hret | hviol
    · rcases hf a s' o hg with hret' | ⟨p, t, hp, hret'⟩
      · exact .inl ((returns_bind_of_ok hret _).mpr hret')
      · exact .inr ⟨p, t, hp, (returns_bind_of_ok hret _).mpr hret'⟩
    · exact .inr (hviol.bind f)
  · rcases hx s _ hy with hret | hviol
    · exact .inl ((returns_bind_of_error hret _).mpr rfl)
    · exact .inr (hviol.bind f)

/-- A branch is checked if both sides are. -/
theorem Checks.ite {c : Prop} [Decidable c] {x x' : Prog (Fault ε π) σ α} {y y' : Prog ε σ α}
    (h : Checks enforced x y) (h' : Checks enforced x' y') :
    Checks enforced (if c then x else x') (if c then y else y') := by
  split
  · exact h
  · exact h'

/-- A part that the program has no step for: what it computes is known. -/
theorem Checks.pure_bind {x : Prog (Fault ε π) σ α} {a : α} {f : α → Prog (Fault ε π) σ β}
    {y : Prog ε σ β} (hx : Checks enforced x (pure a)) (hf : Checks enforced (f a) y) :
    Checks enforced (x >>= f) y := by
  intro s o ho
  rcases hx s _ ((returns_pure a s _).mpr rfl) with hret | hviol
  · rcases hf s o ho with hret' | ⟨p, t, hp, hret'⟩
    · exact .inl ((returns_bind_of_ok hret _).mpr hret')
    · exact .inr ⟨p, t, hp, (returns_bind_of_ok hret _).mpr hret'⟩
  · exact .inr (hviol.bind f)

/-- A check in front. -/
theorem Checks.require_bind {x : Prog (Fault ε π) σ α} {y : Prog ε σ α}
    (h : Checks enforced x y) (p : π) (holds : Bool) :
    Checks enforced (require enforced p holds >>= fun _ => x) y := by
  intro s o ho
  unfold require
  by_cases hfails : (enforced p && !holds) = true
  · rw [if_pos hfails]
    exact .inr ⟨p, s, (Bool.and_eq_true_iff.mp hfails).1,
      (returns_throw_bind _ _ _ _).mpr rfl⟩
  · rw [if_neg hfails]
    rcases h s o ho with hx | ⟨q, s', hq, hx⟩
    · exact .inl ((returns_pure_bind _ _ _ _).mpr hx)
    · exact .inr ⟨q, s', hq, (returns_pure_bind _ _ _ _).mpr hx⟩

/-- A handler, which catches exceptions. -/
theorem Checks.catching {x : Prog (Fault ε π) σ α} {y : Prog ε σ α} (h : Checks enforced x y) :
    Checks enforced (catching x) (attempt y) := by
  intro s o ho
  rcases (returns_attempt y s o).mp ho with ⟨a, s', hy, rfl⟩ | ⟨e, s', hy, rfl⟩
  · rcases h s _ hy with hx | ⟨p, t, hp, hx⟩
    · exact .inl hx.caught
    · exact .inr ⟨p, t, hp, hx.caught⟩
  · rcases h s _ hy with hx | ⟨p, t, hp, hx⟩
    · exact .inl hx.caught
    · exact .inr ⟨p, t, hp, hx.caught⟩

/-- **Loops.** -/
theorem checks_loop {f : α → Prog (Fault ε π) σ (α ⊕ β)} {g : α → Prog ε σ (α ⊕ β)}
    (h : ∀ a, Checks enforced (f a) (g a)) (a : α) :
    Checks enforced (loop f a) (loop g a) := by
  intro s o ho
  refine Returns.loop_induction (P := fun a s o =>
    (loop f a).Returns s o.lift ∨ Violates enforced (loop f a) s) ?_ ?_ ?_ ho
  · intro a s b s' hround
    rcases h a s _ hround with hret | hv
    · exact .inl (returns_loop_of_done hret)
    · exact .inr hv.loop
  · intro a s e s' hround
    rcases h a s _ hround with hret | hv
    · exact .inl (returns_loop_of_error hret)
    · exact .inr hv.loop
  · intro a s a' s' o hround ih
    rcases h a s _ hround with hret | hv
    · rcases ih with hrest | ⟨p, t, hp, hrest⟩
      · exact .inl ((returns_loop_of_next hret _).mpr hrest)
      · exact .inr ⟨p, t, hp, (returns_loop_of_next hret _).mpr hrest⟩
    · exact .inr hv.loop

/-! ### The condition of a checked program -/

/-- No check fails. -/
def Unviolated (x : Prog (Fault ε π) σ α) (s : σ) : Prop :=
  ∀ p s', ¬ x.Returns s (.error (.violated p) s')

/-- From `s` the program ends with `o` if `C` holds, and with a violation if it does not. -/
structure Meets (enforced : π → Bool) (x : Prog (Fault ε π) σ α) (s : σ) (o : Outcome ε σ α)
    (C : Prop) : Prop where
  returns : C → x.Returns s o.lift
  violates : ¬ C → Violates enforced x s

theorem Meets.congr {x : Prog (Fault ε π) σ α} {s : σ} {o : Outcome ε σ α} {C D : Prop}
    (h : Meets enforced x s o C) (hCD : C ↔ D) : Meets enforced x s o D :=
  ⟨fun hD => h.returns (hCD.mpr hD), fun hD => h.violates fun hC => hD (hCD.mp hC)⟩

/-- **No check fails** if and only if the condition holds. -/
theorem Meets.unviolated_iff {x : Prog (Fault ε π) σ α} {s : σ} {o : Outcome ε σ α} {C : Prop}
    (h : Meets enforced x s o C) : Unviolated x s ↔ C := by
  constructor
  · intro hno
    by_contra hC
    obtain ⟨p, s', -, hret⟩ := h.violates hC
    exact hno p s' hret
  · intro hC p s' hret
    have heq := (h.returns hC).unique hret
    cases o <;> cases heq

/-- Sequencing in front of a part that need not end: its checks are those of both parts. -/
theorem Meets.unviolated_bind_iff {x : Prog (Fault ε π) σ α} {f : α → Prog (Fault ε π) σ β}
    {s s' : σ} {a : α} {C : Prop} (hx : Meets enforced x s (.ok a s' : Outcome ε σ α) C) :
    Unviolated (x >>= f) s ↔ C ∧ Unviolated (f a) s' := by
  constructor
  · intro hno
    have hC : C := by
      by_contra hC
      obtain ⟨p, t, -, hret⟩ := (hx.violates hC).bind f
      exact hno p t hret
    exact ⟨hC, fun p t hret => hno p t ((returns_bind_of_ok (hx.returns hC) _).mpr hret)⟩
  · rintro ⟨hC, hno⟩ p t hret
    exact hno p t ((returns_bind_of_ok (hx.returns hC) _).mp hret)

/-- Where the first part returns, it is the second that may fail. -/
theorem unviolated_bind_of_returns {x : Prog (Fault ε π) σ α} {f : α → Prog (Fault ε π) σ β}
    {s s' : σ} {a : α} (hx : x.Returns s (.ok a s')) (hf : Unviolated (f a) s') :
    Unviolated (x >>= f) s :=
  fun p t hret => hf p t ((returns_bind_of_ok hx _).mp hret)

/-- What returns has failed no check. -/
theorem unviolated_of_returns {x : Prog (Fault ε π) σ α} {s s' : σ} {a : α}
    (h : x.Returns s (.ok a s')) : Unviolated x s := by
  intro p t hret
  cases h.unique hret

theorem Unviolated.bind {x : Prog (Fault ε π) σ α} {f : α → Prog (Fault ε π) σ β} {s : σ}
    (hx : Unviolated x s) (hf : ∀ a s', x.Returns s (.ok a s') → Unviolated (f a) s') :
    Unviolated (x >>= f) s := by
  intro p t hret
  rcases (returns_bind ..).mp hret with ⟨a, s', ha, hrest⟩ | ⟨e, s', he, heq⟩
  · exact hf a s' ha p t hrest
  · cases heq
    exact hx p _ he

theorem unviolated_pure (a : α) (s : σ) : Unviolated (pure a : Prog (Fault ε π) σ α) s :=
  unviolated_of_returns ((returns_pure a s _).mpr rfl)

/-- A part with no checks in it. -/
theorem unviolated_lift (y : Prog ε σ α) (s : σ) :
    Unviolated (lift y : Prog (Fault ε π) σ α) s := by
  intro p t hret
  obtain ⟨o, -, ho⟩ := (returns_mapOutcome ..).mp hret
  cases o <;> cases ho

/-- What is done with the value in the end. -/
theorem unviolated_map_iff {x : Prog (Fault ε π) σ α} {s : σ} (f : α → β) :
    Unviolated (x >>= fun a => pure (f a)) s ↔ Unviolated x s := by
  constructor
  · exact fun hno p t hret => hno p t ((returns_bind_of_error hret _).mpr rfl)
  · exact fun hno => hno.bind fun a s' _ => unviolated_pure (f a) s'

/-- Where no check fails a checked version ends as the program does. -/
theorem Unviolated.returns {x : Prog (Fault ε π) σ α} {y : Prog ε σ α} {s : σ}
    {o : Outcome ε σ α} (hx : Unviolated x s) (hxy : Checks enforced x y) (ho : y.Returns s o) :
    x.Returns s o.lift := by
  rcases hxy s o ho with hret | ⟨p, t, -, hret⟩
  · exact hret
  · exact absurd hret (hx p t)

/-- A program with a condition is a checked version of every program that ends as it does. -/
theorem Meets.checks {x : Prog (Fault ε π) σ α} {a : α} {C : Prop}
    (h : ∀ s, Meets enforced x s (.ok a s : Outcome ε σ α) C) :
    Checks enforced x (pure a) := by
  intro s o ho
  rw [returns_pure] at ho
  rw [ho]
  by_cases hC : C
  · exact .inl ((h s).returns hC)
  · exact .inr ((h s).violates hC)

/-- Where the program itself ends is where its checked version ends when no check fails. -/
theorem Meets.of_checks {x : Prog (Fault ε π) σ α} {y : Prog ε σ α} {s : σ}
    {o o' : Outcome ε σ α} {C : Prop} (h : Meets enforced x s o' C) (hxy : Checks enforced x y)
    (ho : y.Returns s o) : Meets enforced x s o C := by
  refine ⟨?_, h.violates⟩
  intro hC
  rcases hxy s o ho with hret | ⟨p, s', -, hret⟩
  · exact hret
  · exact absurd hret (h.unviolated_iff.mpr hC p s')

/-- What returns in any case needs no condition. -/
theorem meets_of_returns {x : Prog (Fault ε π) σ α} {s : σ} {o : Outcome ε σ α}
    (h : x.Returns s o.lift) : Meets enforced x s o True :=
  ⟨fun _ => h, fun hC => absurd trivial hC⟩

theorem meets_pure (a : α) (s : σ) :
    Meets enforced (pure a : Prog (Fault ε π) σ α) s (.ok a s) True :=
  meets_of_returns ((returns_pure a s _).mpr rfl)

/-- A check that is enforced needs what it checks. -/
theorem meets_require (p : π) (holds : Bool) (s : σ) :
    Meets enforced (require enforced p holds : Prog (Fault ε π) σ Unit) s (.ok () s)
      (enforced p = true → holds = true) := by
  unfold require
  cases henf : enforced p with
  | false => exact (meets_pure () s).congr (by simp)
  | true =>
    cases holds with
    | true => exact (meets_pure () s).congr (by simp)
    | false =>
      refine ⟨fun hC => absurd (hC rfl) Bool.false_ne_true, fun _ => ⟨p, s, henf, ?_⟩⟩
      exact (returns_throw _ s _).mpr rfl

/-- **Sequencing**: the conditions of both parts. -/
theorem Meets.bind {x : Prog (Fault ε π) σ α} {f : α → Prog (Fault ε π) σ β} {s s' : σ} {a : α}
    {o : Outcome ε σ β} {C D : Prop} (hx : Meets enforced x s (.ok a s') C)
    (hf : Meets enforced (f a) s' o D) : Meets enforced (x >>= f) s o (C ∧ D) := by
  constructor
  · rintro ⟨hC, hD⟩
    exact (returns_bind_of_ok (hx.returns hC) _).mpr (hf.returns hD)
  · intro hno
    by_cases hC : C
    · obtain ⟨p, t, hp, hret⟩ := hf.violates fun hD => hno ⟨hC, hD⟩
      exact ⟨p, t, hp, (returns_bind_of_ok (hx.returns hC) _).mpr hret⟩
    · exact (hx.violates hC).bind f

/-- Sequencing behind a part with no checks. -/
theorem Meets.bind_of_returns {x : Prog (Fault ε π) σ α} {f : α → Prog (Fault ε π) σ β}
    {s s' : σ} {a : α} {o : Outcome ε σ β} {C : Prop} (hx : x.Returns s (.ok a s'))
    (hf : Meets enforced (f a) s' o C) : Meets enforced (x >>= f) s o C :=
  ((meets_of_returns hx).bind hf).congr (iff_of_eq (true_and C))

theorem Meets.get_bind {f : σ → Prog (Fault ε π) σ α} {s : σ} {o : Outcome ε σ α} {C : Prop}
    (h : Meets enforced (f s) s o C) : Meets enforced (get >>= f) s o C :=
  h.bind_of_returns ((returns_get s _).mpr rfl)

theorem Meets.modify_bind {g : σ → σ} {f : Unit → Prog (Fault ε π) σ α} {s : σ}
    {o : Outcome ε σ α} {C : Prop} (h : Meets enforced (f ()) (g s) o C) :
    Meets enforced (modify g >>= f) s o C := h.bind_of_returns ((returns_modify g s _).mpr rfl)

theorem Meets.lift_bind {y : Prog ε σ α} {f : α → Prog (Fault ε π) σ β} {s s' : σ} {a : α}
    {o : Outcome ε σ β} {C : Prop} (hy : y.Returns s (.ok a s'))
    (h : Meets enforced (f a) s' o C) : Meets enforced (lift y >>= f) s o C :=
  h.bind_of_returns hy.lift

/-- What is done with the value in the end. -/
theorem Meets.map {x : Prog (Fault ε π) σ α} {s s' : σ} {a : α} {C : Prop}
    (h : Meets enforced x s (.ok a s' : Outcome ε σ α) C) (f : α → β) :
    Meets enforced (x >>= fun a => pure (f a)) s (.ok (f a) s' : Outcome ε σ β) C :=
  (h.bind (meets_pure (f a) s')).congr (iff_of_eq (and_true C))

/-- What a `catch` surrounds keeps its condition. -/
theorem Meets.caught {x : Prog (Fault ε π) σ α} {s s' : σ} {a : α} {C : Prop}
    (h : Meets enforced x s (.ok a s' : Outcome ε σ α) C) :
    Meets enforced (catching x) s (.ok (.ok a) s' : Outcome ε σ (Except ε α)) C := by
  constructor
  · exact fun hC => (h.returns hC).caught
  · intro hC
    obtain ⟨p, t, hp, hret⟩ := h.violates hC
    exact ⟨p, t, hp, hret.caught⟩

/-- **A round that goes on.** -/
theorem Meets.loop_next {f : α → Prog (Fault ε π) σ (α ⊕ β)} {a a' : α} {s s' : σ}
    {o : Outcome ε σ β} {C D : Prop} (hf : Meets enforced (f a) s (.ok (.inl a') s') C)
    (hrest : Meets enforced (loop f a') s' o D) : Meets enforced (loop f a) s o (C ∧ D) := by
  constructor
  · rintro ⟨hC, hD⟩
    exact (returns_loop_of_next (hf.returns hC) _).mpr (hrest.returns hD)
  · intro hno
    by_cases hC : C
    · obtain ⟨p, t, hp, hret⟩ := hrest.violates fun hD => hno ⟨hC, hD⟩
      exact ⟨p, t, hp, (returns_loop_of_next (hf.returns hC) _).mpr hret⟩
    · exact (hf.violates hC).loop

/-- **A round that ends the loop.** -/
theorem Meets.loop_done {f : α → Prog (Fault ε π) σ (α ⊕ β)} {a : α} {b : β} {s s' : σ}
    {C : Prop} (hf : Meets enforced (f a) s (.ok (.inr b) s') C) :
    Meets enforced (loop f a) s (.ok b s') C :=
  ⟨fun hC => returns_loop_of_done (hf.returns hC), fun hC => (hf.violates hC).loop⟩

end Prog

end Lib
