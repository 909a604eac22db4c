import Evaluation.Lib.Interrupt

namespace Lib

/-!
# Critical sections

A thread is interrupted only where its signals are allowed; what it does from a state in which they
are not, up to the next one in which they are, is as good as one step.  So is the handler.  What
holds of the states in between is then shown for these large steps alone.

* `Machine.Critical` — code that runs to its end with no signal before it;
* `Machine.Nears` — the thread comes to a state with some property before the next signal;
* `Machine.Reaches.nears` — so it does from wherever a run has come to, if the large steps and the
  whole handler keep the property.
-/

namespace Machine

variable {σ ι : Type} {M : Machine σ ι} {handler : List ι} {allowed : σ → Prop} {after : σ → σ}
  {I : σ → List ι → Prop} {start t : Thread σ ι}

/-- Nothing comes between. -/
theorem Reaches.run_thread {s s' : σ} {inside code : List ι}
    (h : M.Reaches handler allowed start ⟨s, inside ++ code, none⟩)
    (hrun : M.Completes .thread s inside s') :
    M.Reaches handler allowed start ⟨s', code, none⟩ := by
  induction hrun with
  | nil => exact h
  | cons hexec _ ih =>
    apply ih
    rw [List.append_assoc]
    exact h.step hexec

/-- The handler runs, and the thread goes on. -/
theorem Reaches.run_handler {s s' : σ} {inside code : List ι}
    (h : M.Reaches handler allowed start ⟨s, code, some inside⟩)
    (hrun : M.Completes .handler s inside s') :
    M.Reaches handler allowed start ⟨s', code, none⟩ := by
  induction hrun with
  | nil => exact h.resume
  | cons hexec _ ih => exact ih (h.handle hexec)

/-- **A critical section**: the code runs to its end, and no signal is allowed before. -/
inductive Critical (M : Machine σ ι) (allowed : σ → Prop) : σ → List ι → σ → Prop where
  | nil (s : σ) : Critical M allowed s [] s
  | cons {s s' s'' : σ} {i : ι} {new code : List ι} (hclosed : ¬ allowed s)
      (hexec : M.exec .thread i s = some (new, s'))
      (h : Critical M allowed s' (new ++ code) s'') : Critical M allowed s (i :: code) s''

/-- The thread is in a critical section, or at the end of one, behind which it has `I`. -/
def Nears (M : Machine σ ι) (allowed : σ → Prop) (I : σ → List ι → Prop) (s : σ)
    (code : List ι) : Prop :=
  ∃ inside rest s', code = inside ++ rest ∧ M.Critical allowed s inside s' ∧ I s' rest

/-- Code that starts with a critical stretch nears what holds behind it. -/
theorem Nears.of_critical {s s' : σ} {inside rest : List ι} (h : M.Critical allowed s inside s')
    (hI : I s' rest) : M.Nears allowed I s (inside ++ rest) := ⟨inside, rest, s', rfl, h, hI⟩

/-- Code nears where it is. -/
theorem Nears.of_self {s : σ} {code : List ι} (hI : I s code) : M.Nears allowed I s code :=
  .of_critical (.nil s) hI

/-- Where a signal is allowed there is no such section. -/
theorem Nears.of_allowed {s : σ} {code : List ι} (h : M.Nears allowed I s code)
    (hallowed : allowed s) : I s code := by
  obtain ⟨inside, rest, s', rfl, hinside, hI⟩ := h
  cases hinside with
  | nil => exact hI
  | cons hclosed => exact absurd hallowed hclosed

/-- Code that is at its end has got there. -/
theorem Nears.of_end {s : σ} (h : M.Nears allowed I s []) : I s [] := by
  obtain ⟨inside, rest, s', hcode, hinside, hI⟩ := h
  obtain ⟨rfl, rfl⟩ := List.append_eq_nil_iff.mp hcode.symm
  cases hinside
  exact hI

section

variable (hstep : ∀ {s s' : σ} {i : ι} {new code : List ι}, I s (i :: code) →
  M.exec .thread i s = some (new, s') → M.Nears allowed I s' (new ++ code))

include hstep

/-- A step of the thread. -/
theorem Nears.step {s s' : σ} {i : ι} {new code : List ι} (h : M.Nears allowed I s (i :: code))
    (hexec : M.exec .thread i s = some (new, s')) : M.Nears allowed I s' (new ++ code) := by
  obtain ⟨inside, rest, s'', hcode, hinside, hI⟩ := h
  cases hinside with
  | nil =>
    rw [List.nil_append] at hcode
    rw [← hcode] at hI
    exact hstep hI hexec
  | cons hclosed hexec' hinside =>
    obtain ⟨rfl, rfl⟩ := List.cons.inj hcode
    cases hexec.symm.trans hexec'
    exact ⟨_, rest, s'', (List.append_assoc ..).symm, hinside, hI⟩

variable (hcompletes : ∀ s, allowed s → M.Completes .handler s handler (after s))
  (hafter : ∀ {s : σ} {code : List ι}, I s code → allowed s → I (after s) code)

include hcompletes hafter

/-- **From wherever a run has come to**, the thread, or the handler first and then the thread, comes
    to a state with `I`. -/
theorem Reaches.nears (hstart : start.handler = none) (hI : I start.shared start.code)
    (h : M.Reaches handler allowed start t) :
    (t.handler = none → M.Nears allowed I t.shared t.code) ∧
      ∀ code, t.handler = some code →
        ∃ s', M.Completes .handler t.shared code s' ∧ M.Nears allowed I s' t.code := by
  induction h with
  | start =>
    refine ⟨fun _ => .of_self hI, fun code hcode => ?_⟩
    cases hstart.symm.trans hcode
  | step _ hexec ih => exact ⟨fun _ => (ih.1 rfl).step hstep hexec, nofun⟩
  | signal _ hallowed ih =>
    -- The handler runs from a state with `I` to a state with `I`.
    refine ⟨nofun, ?_⟩
    rintro _ ⟨⟩
    exact ⟨_, hcompletes _ hallowed, .of_self (hafter ((ih.1 rfl).of_allowed hallowed) hallowed)⟩
  | handle _ hexec ih =>
    refine ⟨nofun, ?_⟩
    rintro _ ⟨⟩
    obtain ⟨s', hrun, hnears⟩ := ih.2 _ rfl
    exact ⟨s', hrun.tail hexec, hnears⟩
  | resume _ ih =>
    obtain ⟨s', hrun, hnears⟩ := ih.2 _ rfl
    cases hrun
    exact ⟨fun _ => hnears, nofun⟩

end

end Machine

end Lib
