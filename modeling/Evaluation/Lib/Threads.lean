import Mathlib.Logic.Function.Basic
import Evaluation.Lib.Interrupt

namespace Lib

/-!
# Threads on one state

Any number of threads run their instructions on a state that they share, one instruction at a time
and in any order.  An instruction may have to wait.

* `Threads`, `Machine.Interleaves` — the states that they reach;
* `Machine.Interleaves.invariant` — what every instruction of every thread keeps holds there;
* `Machine.Stuck` — everybody waits;
* `ofThread` — what one of them has contributed to a common history.
-/

variable {κ σ ι α : Type}

/-- Some threads: what they share, and the instructions that each has to come. -/
structure Threads (κ σ ι : Type) where
  shared : σ
  code : κ → List ι

section

variable [DecidableEq κ]

/-- One of them goes on. -/
def Threads.goOn (t : Threads κ σ ι) (k : κ) (s : σ) (code : List ι) : Threads κ σ ι :=
  ⟨s, Function.update t.code k code⟩

@[simp] theorem Threads.goOn_code_self (t : Threads κ σ ι) (k : κ) (s : σ) (code : List ι) :
    (t.goOn k s code).code k = code := Function.update_self ..

/-- The other threads keep theirs. -/
theorem Threads.goOn_code_of_ne (t : Threads κ σ ι) {k j : κ} (h : j ≠ k) (s : σ)
    (code : List ι) : (t.goOn k s code).code j = t.code j := Function.update_of_ne h ..

/-- Of two steps of one thread the second counts. -/
theorem Threads.goOn_goOn (t : Threads κ σ ι) (k : κ) (s s' : σ) (code code' : List ι) :
    (t.goOn k s code).goOn k s' code' = t.goOn k s' code' :=
  congrArg (Threads.mk s') (Function.update_idem ..)

namespace Machine

variable {M : Machine σ ι} {start t : Threads κ σ ι}

/-- **The states that threads reach**, in whatever order they go on. -/
inductive Interleaves (M : Machine σ ι) (start : Threads κ σ ι) : Threads κ σ ι → Prop where
  | start : Interleaves M start start
  | step {t : Threads κ σ ι} {k : κ} {i : ι} {new rest : List ι} {s' : σ}
      (h : Interleaves M start t) (hcode : t.code k = i :: rest)
      (hexec : M.exec .thread i t.shared = some (new, s')) :
      Interleaves M start (t.goOn k s' (new ++ rest))

/-- **An invariant** of every instruction of every thread. -/
theorem Interleaves.invariant {I : Threads κ σ ι → Prop} (hstart : I start)
    (hstep : ∀ {t : Threads κ σ ι} {k : κ} {i : ι} {new rest : List ι} {s' : σ}, I t →
      t.code k = i :: rest → M.exec .thread i t.shared = some (new, s') →
        I (t.goOn k s' (new ++ rest)))
    (h : M.Interleaves start t) : I t := by
  induction h with
  | start => exact hstart
  | step _ hcode hexec ih => exact hstep ih hcode hexec

/-- One thread goes on for a while, and nobody else. -/
theorem Interleaves.run {k : κ} {s s' : σ} {code rest : List ι} (h : M.Interleaves start t)
    (hs : t.shared = s) (hcode : t.code k = code ++ rest)
    (hrun : M.Completes .thread s code s') : M.Interleaves start (t.goOn k s' rest) := by
  induction hrun generalizing t with
  | nil =>
    have hsame : t.goOn k t.shared rest = t := by
      unfold Threads.goOn
      rw [Function.update_eq_self_iff.mpr hcode.symm]
    rw [← hs, hsame]
    exact h
  | cons hexec _ ih =>
    rw [← hs] at hexec
    have hnext := ih (h.step hcode hexec) rfl
      ((Threads.goOn_code_self ..).trans (List.append_assoc ..).symm)
    rwa [Threads.goOn_goOn] at hnext

/-- Somebody has something to do, and everybody who has waits. -/
def Stuck (M : Machine σ ι) (t : Threads κ σ ι) : Prop :=
  (∃ k, t.code k ≠ []) ∧ ∀ k i rest, t.code k = i :: rest → M.exec .thread i t.shared = none

end Machine

/-! ### Common histories -/

/-- What a thread has contributed. -/
def ofThread (k : κ) (hist : List (κ × α)) : List α := (hist.filter (·.1 = k)).map Prod.snd

@[simp] theorem ofThread_concat_self (k : κ) (hist : List (κ × α)) (a : α) :
    ofThread k (hist ++ [(k, a)]) = ofThread k hist ++ [a] := by
  simp [ofThread]

/-- Another thread's entry is not. -/
theorem ofThread_concat_of_ne {k j : κ} (h : j ≠ k) (hist : List (κ × α)) (a : α) :
    ofThread k (hist ++ [(j, a)]) = ofThread k hist := by
  simp [ofThread, h]

end

end Lib
