import Mathlib.Logic.Basic

namespace Lib

/-!
# A thread that signals interrupt

A thread runs a list of instructions.  Between any two of them a signal may start its handler,
another list, which runs to its end on the same thread before the thread goes on.  An instruction
may have to wait; the handler that waits for something that the thread itself is to do waits for
ever.

* `Machine` — what the instructions do; `Machine.Completes` — code that runs to its end;
* `Thread`, `Machine.Reaches` — the states of a thread that is interrupted in states of a given
  kind;
* `Machine.Reaches.completes` — if the handler completes in all states of that kind, then from
  wherever a run has come the handler that is active completes;
* `Machine.Completes.not_waiting` — and it does not wait.
-/

/-- Who runs: the thread itself, or the handler on top of it. -/
inductive Context where
  | thread
  | handler
  deriving DecidableEq, Repr

/-- What an instruction does to what thread and handler share: the new state, and the instructions
    that it stands for; `none` when it has to wait. -/
structure Machine (σ ι : Type) where
  exec : Context → ι → σ → Option (List ι × σ)

/-- A thread: the instructions to come, and those of the handler when it is active. -/
structure Thread (σ ι : Type) where
  shared : σ
  code : List ι
  handler : Option (List ι)

namespace Machine

variable {σ ι : Type} {M : Machine σ ι}

/-- The code runs to its end, with nothing in between. -/
inductive Completes (M : Machine σ ι) (c : Context) : σ → List ι → σ → Prop where
  | nil (s : σ) : Completes M c s [] s
  | cons {s s' s'' : σ} {i : ι} {new code : List ι} (hexec : M.exec c i s = some (new, s'))
      (h : Completes M c s' (new ++ code) s'') : Completes M c s (i :: code) s''

/-- Code that completes, behind code that completes. -/
theorem Completes.append {c : Context} {s s' s'' : σ} {code code' : List ι}
    (h : M.Completes c s code s') (h' : M.Completes c s' code' s'') :
    M.Completes c s (code ++ code') s'' := by
  induction h with
  | nil => exact h'
  | cons hexec _ ih =>
    have hrun := ih h'
    rw [List.append_assoc] at hrun
    exact .cons hexec hrun

/-- One instruction that does not expand. -/
theorem completes_one {c : Context} {s s' : σ} {i : ι} (hexec : M.exec c i s = some ([], s')) :
    M.Completes c s [i] s' := .cons hexec (.nil s')

/-- Code that completes does not wait. -/
theorem Completes.not_waiting {c : Context} {s s' : σ} {i : ι} {code : List ι}
    (h : M.Completes c s (i :: code) s') : M.exec c i s ≠ none := by
  cases h with
  | cons hexec _ => exact Option.ne_none_iff_exists'.mpr ⟨_, hexec⟩

/-- The part of a run behind its first instruction. -/
theorem Completes.tail {c : Context} {s s' t : σ} {i : ι} {new code : List ι}
    (h : M.Completes c s (i :: code) t) (hexec : M.exec c i s = some (new, s')) :
    M.Completes c s' (new ++ code) t := by
  cases h with
  | cons hexec' h =>
    cases hexec.symm.trans hexec'
    exact h

/-- **The states that a thread reaches** when signals arrive only in states with `allowed`. -/
inductive Reaches (M : Machine σ ι) (handler : List ι) (allowed : σ → Prop) (start : Thread σ ι) :
    Thread σ ι → Prop where
  | start : Reaches M handler allowed start start
  | step {s s' : σ} {i : ι} {new code : List ι}
      (h : Reaches M handler allowed start ⟨s, i :: code, none⟩)
      (hexec : M.exec .thread i s = some (new, s')) :
      Reaches M handler allowed start ⟨s', new ++ code, none⟩
  | signal {s : σ} {code : List ι} (h : Reaches M handler allowed start ⟨s, code, none⟩)
      (hallowed : allowed s) : Reaches M handler allowed start ⟨s, code, some handler⟩
  | handle {s s' : σ} {i : ι} {new code rest : List ι}
      (h : Reaches M handler allowed start ⟨s, code, some (i :: rest)⟩)
      (hexec : M.exec .handler i s = some (new, s')) :
      Reaches M handler allowed start ⟨s', code, some (new ++ rest)⟩
  | resume {s : σ} {code : List ι} (h : Reaches M handler allowed start ⟨s, code, some []⟩) :
      Reaches M handler allowed start ⟨s, code, none⟩

/-- The handler has to wait, and while it does the thread goes on no more. -/
def Waiting (M : Machine σ ι) (t : Thread σ ι) : Prop :=
  ∃ i rest, t.handler = some (i :: rest) ∧ M.exec .handler i t.shared = none

/-- **The handler completes** wherever a run has come to, if it does in every state in which signals
    arrive. -/
theorem Reaches.completes {handler : List ι} {allowed post : σ → Prop} {start t : Thread σ ι}
    (hcompletes : ∀ s, allowed s → ∃ s', M.Completes .handler s handler s' ∧ post s')
    (hstart : start.handler = none) (h : M.Reaches handler allowed start t) {code : List ι}
    (hcode : t.handler = some code) : ∃ s', M.Completes .handler t.shared code s' ∧ post s' := by
  -- A signal starts a handler that completes; each of its steps leaves the rest of that run.
  induction h generalizing code with
  | start => cases hstart.symm.trans hcode
  | step => cases hcode
  | signal _ hallowed =>
    cases hcode
    exact hcompletes _ hallowed
  | handle _ hexec ih =>
    cases hcode
    obtain ⟨s', hrun, hpost⟩ := ih rfl
    exact ⟨s', hrun.tail hexec, hpost⟩
  | resume => cases hcode

/-- A thread whose signals come in allowed states never waits in its handler. -/
theorem Reaches.not_waiting {handler : List ι} {allowed post : σ → Prop} {start t : Thread σ ι}
    (hcompletes : ∀ s, allowed s → ∃ s', M.Completes .handler s handler s' ∧ post s')
    (hstart : start.handler = none) (h : M.Reaches handler allowed start t) : ¬ M.Waiting t := by
  rintro ⟨i, rest, hcode, hwait⟩
  obtain ⟨s', hrun, -⟩ := h.completes hcompletes hstart hcode
  exact hrun.not_waiting hwait

end Machine

end Lib
