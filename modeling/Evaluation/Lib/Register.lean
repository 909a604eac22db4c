import Mathlib.Data.Finset.Basic
import Mathlib.Logic.Function.Basic

namespace Lib

/-!
# Registers: a set of the names in use

Holders take names and give them back; a register is a finite set that is meant to hold
exactly the names in use.  `held k` is the name that the holder `k` has, if any.

* `Registers held names` — no two holders have the same name, and the set is that of the
  names held;
* `Registers.take`, `Registers.release` — taking a name that is not in the set, and giving one
  back, in the holders and in the set alike, keep this;
* `Registers.erase_iff`, `Registers.not_drop` — what becomes of it when one side only changes.
-/

variable {κ ν : Type}

/-- The set holds the names in use, each with one holder. -/
structure Registers (held : κ → Option ν) (names : Finset ν) : Prop where
  mem_iff : ∀ n, n ∈ names ↔ ∃ k, held k = some n
  inj : ∀ k k' n, held k = some n → held k' = some n → k = k'

namespace Registers

variable {held : κ → Option ν} {names : Finset ν}

/-- Nobody holds anything. -/
theorem empty : Registers (fun _ : κ => none) (∅ : Finset ν) :=
  ⟨fun n => by simp, fun k k' n h => by cases h⟩

/-- **Taking a name** that is not in the set. -/
theorem take [DecidableEq κ] [DecidableEq ν] (h : Registers held names) {k : κ} {n : ν}
    (hk : held k = none) (hn : n ∉ names) :
    Registers (Function.update held k (some n)) (insert n names) := by
  have hfree : ∀ k', held k' ≠ some n := fun k' hk' => hn ((h.mem_iff n).mpr ⟨k', hk'⟩)
  constructor
  · intro m
    rw [Finset.mem_insert, h.mem_iff]
    constructor
    · rintro (rfl | ⟨k', hk'⟩)
      · exact ⟨k, Function.update_self ..⟩
      · refine ⟨k', ?_⟩
        rw [Function.update_of_ne]
        · exact hk'
        · rintro rfl
          rw [hk] at hk'
          cases hk'
    · rintro ⟨k', hk'⟩
      by_cases hkk : k' = k
      · rw [hkk, Function.update_self] at hk'
        exact .inl (Option.some.inj hk').symm
      · rw [Function.update_of_ne hkk] at hk'
        exact .inr ⟨k', hk'⟩
  · intro k1 k2 m h1 h2
    by_cases hk1 : k1 = k
    · by_cases hk2 : k2 = k
      · rw [hk1, hk2]
      · rw [hk1, Function.update_self] at h1
        rw [Function.update_of_ne hk2] at h2
        obtain rfl := Option.some.inj h1
        exact absurd h2 (hfree k2)
    · by_cases hk2 : k2 = k
      · rw [hk2, Function.update_self] at h2
        rw [Function.update_of_ne hk1] at h1
        obtain rfl := Option.some.inj h2
        exact absurd h1 (hfree k1)
      · rw [Function.update_of_ne hk1] at h1
        rw [Function.update_of_ne hk2] at h2
        exact h.inj k1 k2 m h1 h2

/-- **Giving a name back.** -/
theorem release [DecidableEq κ] [DecidableEq ν] (h : Registers held names) {k : κ} {n : ν}
    (hk : held k = some n) :
    Registers (Function.update held k none) (names.erase n) := by
  constructor
  · intro m
    rw [Finset.mem_erase, h.mem_iff]
    constructor
    · rintro ⟨hne, k', hk'⟩
      refine ⟨k', ?_⟩
      rw [Function.update_of_ne]
      · exact hk'
      · rintro rfl
        rw [hk] at hk'
        exact hne (Option.some.inj hk').symm
    · rintro ⟨k', hk'⟩
      by_cases hkk : k' = k
      · rw [hkk, Function.update_self] at hk'
        cases hk'
      · rw [Function.update_of_ne hkk] at hk'
        refine ⟨?_, k', hk'⟩
        rintro rfl
        exact hkk (h.inj k' k _ hk' hk)
  · intro k1 k2 m h1 h2
    by_cases hk1 : k1 = k
    · rw [hk1, Function.update_self] at h1
      cases h1
    · by_cases hk2 : k2 = k
      · rw [hk2, Function.update_self] at h2
        cases h2
      · rw [Function.update_of_ne hk1] at h1
        rw [Function.update_of_ne hk2] at h2
        exact h.inj k1 k2 m h1 h2

/-- Taking a name out of the set alone goes unnoticed exactly when nobody holds it. -/
theorem erase_iff [DecidableEq ν] (h : Registers held names) (n : ν) :
    Registers held (names.erase n) ↔ ∀ k, held k ≠ some n := by
  constructor
  · intro h' k hk
    have hmem := (h'.mem_iff n).mpr ⟨k, hk⟩
    exact Finset.notMem_erase n names hmem
  · intro hfree
    have hnot : n ∉ names := fun hn => by
      obtain ⟨k, hk⟩ := (h.mem_iff n).mp hn
      exact hfree k hk
    rw [Finset.erase_eq_of_notMem hnot]
    exact h

/-- A holder that drops its name while the set keeps it is always noticed. -/
theorem not_drop [DecidableEq κ] (h : Registers held names) {k : κ} {n : ν} (hk : held k = some n) :
    ¬ Registers (Function.update held k none) names := by
  intro h'
  obtain ⟨k', hk'⟩ := (h'.mem_iff n).mp ((h.mem_iff n).mpr ⟨k, hk⟩)
  by_cases hkk : k' = k
  · rw [hkk, Function.update_self] at hk'
    cases hk'
  · rw [Function.update_of_ne hkk] at hk'
    exact hkk (h.inj k' k n hk' hk)

end Registers

end Lib
