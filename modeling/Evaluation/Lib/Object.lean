import Mathlib.Logic.Relation
import Evaluation.Lib.Prog

namespace Lib

/-!
# Objects: sequences of calls, and refinement between them

An object answers calls `κ` with results `ν`; a call may also throw an `ε`, after which the
object is not used any more.  There are two kinds here: a pure one, given by a total step
function (the abstract one), and one whose calls are programs (the implementation).

* `observe step` — what a pure object answers to a sequence of calls, up to the first throw;
* `Prog.observe M` — the same for an object whose calls are the programs `M`;
* `Simulates` — every call keeps a relation between the two and is answered alike;
* `Simulates.observe` — then every sequence of calls is answered alike;
* `observe_filter` — calls that change nothing can be left out of a sequence;
* `Calls`, `Answers` — the steps that an object makes by its calls, whatever comes of them, and by
  those that return;
* `invariant_of_calls`, `Simulates.reaches` — what holds wherever such steps lead.
-/

variable {ε ε' κ ν α σ τ : Type}

/-- The answers of a pure object to a sequence of calls, each beside its call, up to and
    including the first that throws. -/
def observe (step : κ → τ → Except ε (ν × τ)) : List κ → τ → List (κ × Except ε ν)
  | [], _ => []
  | c :: cs, t => match step c t with
    | .error e => [(c, .error e)]
    | .ok (v, t') => (c, .ok v) :: observe step cs t'

/-- The answers of an object whose calls are programs, in the same way. -/
def Prog.observe (M : κ → Prog ε σ ν) : List κ → Prog ε' σ (List (κ × Except ε ν))
  | [] => pure []
  | c :: cs => do
    match ← Prog.attempt (M c) with
    | .error e => pure [(c, .error e)]
    | .ok v =>
      let rest ← Prog.observe M cs
      pure ((c, .ok v) :: rest)

/-- From `s` the program `x` answers as the pure call `y` does, and leaves a state related by
    `R` to the one `y` leaves. -/
def Alike (x : Prog ε σ ν) (s : σ) (y : Except ε (ν × τ)) (R : σ → τ → Prop) : Prop :=
  match y with
  | .ok (v, t) => ∃ s', x.Returns s (.ok v s') ∧ R s' t
  | .error e => ∃ s', x.Returns s (.error e s')

/-- Calls on related objects are answered alike and leave related objects. -/
def Simulates (M : κ → Prog ε σ ν) (step : κ → τ → Except ε (ν × τ)) (R : σ → τ → Prop) :
    Prop :=
  ∀ c s t, R s t → Alike (M c) s (step c t) R

/-- Wrapping up the answer of both. -/
theorem Alike.map {x : Prog ε σ ν} {s : σ} {y : Except ε (ν × τ)} {R : σ → τ → Prop}
    (f : ν → α) (h : Alike x s y R) :
    Alike (do let v ← x; pure (f v)) s (y.map fun p => (f p.1, p.2)) R := by
  cases y with
  | ok p =>
    obtain ⟨s', hret, hR⟩ := h
    exact ⟨s', (Prog.returns_bind_of_ok hret _).mpr ((Prog.returns_pure _ _ _).mpr rfl), hR⟩
  | error e =>
    obtain ⟨s', hret⟩ := h
    exact ⟨s', (Prog.returns_bind_of_error hret _).mpr rfl⟩

/-- **Refinement of whole call sequences.** If every call is answered alike from related
    objects, so is every sequence of calls, up to and including the first that throws. -/
theorem Simulates.observe {M : κ → Prog ε σ ν} {step : κ → τ → Except ε (ν × τ)}
    {R : σ → τ → Prop} (hsim : Simulates M step R) (cs : List κ) {s : σ} {t : τ} (h : R s t) :
    ∃ s', (Prog.observe M cs : Prog ε' σ _).Returns s (.ok (observe step cs t) s') := by
  induction cs generalizing s t with
  | nil => exact ⟨s, (Prog.returns_pure _ _ _).mpr rfl⟩
  | cons c cs ih =>
    have hc := hsim c s t h
    simp only [Prog.observe, Lib.observe]
    cases hstep : step c t with
    | error e =>
      rw [hstep] at hc
      obtain ⟨s', hs'⟩ := hc
      refine ⟨s', ?_⟩
      rw [Prog.returns_bind_of_ok (Prog.returns_attempt_of_error hs')]
      exact (Prog.returns_pure _ _ _).mpr rfl
    | ok p =>
      obtain ⟨v, t'⟩ := p
      rw [hstep] at hc
      obtain ⟨s', hs', hR⟩ := hc
      obtain ⟨s'', hs''⟩ := ih hR
      refine ⟨s'', ?_⟩
      rw [Prog.returns_bind_of_ok (Prog.returns_attempt_of_ok hs'), Prog.returns_bind_of_ok hs'']
      exact (Prog.returns_pure _ _ _).mpr rfl

/-- Calls that never throw and change nothing can be left out: the other calls are answered
    as before. -/
theorem observe_filter (step : κ → τ → Except ε (ν × τ)) (keep : κ → Bool)
    (hskip : ∀ c t, keep c = false → ∃ v, step c t = .ok (v, t)) (cs : List κ) (t : τ) :
    (observe step cs t).filter (fun p => keep p.1) = observe step (cs.filter keep) t := by
  induction cs generalizing t with
  | nil => rfl
  | cons c cs ih =>
    cases hk : keep c with
    | false =>
      obtain ⟨v, hv⟩ := hskip c t hk
      have hdrop : ¬ keep c = true := by rw [hk]; exact Bool.false_ne_true
      rw [List.filter_cons_of_neg hdrop, ← ih t]
      simp only [observe, hv, List.filter_cons, hk, Bool.false_eq_true, if_false]
    | true =>
      rw [List.filter_cons_of_pos hk]
      simp only [observe]
      cases hstep : step c t with
      | error e => simp only [List.filter_cons, hk, if_true, List.filter_nil]
      | ok p => simp only [List.filter_cons, hk, if_true, ih]

/-! ### The steps of an object -/

/-- A call leads from one state to the other, whether it returns or throws. -/
def Calls (M : κ → Prog ε σ ν) (s t : σ) : Prop := ∃ c o, (M c).Returns s o ∧ o.state = t

/-- A call leads from one state to the other, and returns. -/
def Answers (M : κ → Prog ε σ ν) (s t : σ) : Prop := ∃ c v, (M c).Returns s (.ok v t)

/-- **Reachable states.** What every call keeps holds wherever calls lead. -/
theorem invariant_of_calls {M : κ → Prog ε σ ν} {I : σ → Prop}
    (hM : ∀ c s o, I s → (M c).Returns s o → I o.state) {s t : σ}
    (h : Relation.ReflTransGen (Calls M) s t) (hs : I s) : I t := by
  induction h with
  | refl => exact hs
  | tail _ hcall ih =>
    obtain ⟨c, o, ho, rfl⟩ := hcall
    exact hM c _ o ih ho

/-- A call that returns is answered alike by the object that is simulated. -/
theorem Simulates.answer {M : κ → Prog ε σ ν} {step : κ → τ → Except ε (ν × τ)}
    {R : σ → τ → Prop} (hsim : Simulates M step R) {c : κ} {s s' : σ} {t : τ} {v : ν} (h : R s t)
    (hret : (M c).Returns s (.ok v s')) : ∃ t', step c t = .ok (v, t') ∧ R s' t' := by
  have hc := hsim c s t h
  cases hstep : step c t with
  | error e =>
    rw [hstep] at hc
    obtain ⟨s'', hs''⟩ := hc
    cases hret.unique hs''
  | ok p =>
    obtain ⟨v', t'⟩ := p
    rw [hstep] at hc
    obtain ⟨s'', hs'', hR⟩ := hc
    cases hret.unique hs''
    exact ⟨t', rfl, hR⟩

/-- Wherever calls that return lead, some state is simulated. -/
theorem Simulates.reaches {M : κ → Prog ε σ ν} {step : κ → τ → Except ε (ν × τ)}
    {R : σ → τ → Prop} (hsim : Simulates M step R) {s s' : σ} {t : τ} (h : R s t)
    (hreach : Relation.ReflTransGen (Answers M) s s') : ∃ t', R s' t' := by
  induction hreach with
  | refl => exact ⟨t, h⟩
  | tail _ hcall ih =>
    obtain ⟨t', hR⟩ := ih
    obtain ⟨c, v, hret⟩ := hcall
    obtain ⟨t'', -, hR'⟩ := hsim.answer hR hret
    exact ⟨t'', hR'⟩

end Lib
