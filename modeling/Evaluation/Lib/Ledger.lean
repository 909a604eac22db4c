import Mathlib.Order.BooleanAlgebra.Set

namespace Lib

/-!
# Ledgers

A ledger lists, in order, the resources that a program has got and those that it has given
back.  Replayed from the set of what it held before, a ledger leads to what it holds afterwards,
unless something is got that is held already, or given back that is not held.

* `Replays S es S'` — the ledger `es` leads from `S` to `S'`;
* `Replays.append`, `replays_append`, `Replays.unique` — one ledger behind another, and the set
  that a ledger leads to;
* `Replays.count` — what is held at the end has been got once more often than given back;
* `Balanced S es` — the ledger gives back all that it gets, and nothing of `S`.
-/

/-- An entry: a resource is got, or given back. -/
inductive Entry (κ : Type) where
  | opened (k : κ)
  | closed (k : κ)
  deriving DecidableEq, Repr

variable {κ : Type}

/-- The ledger leads from one set of resources to the other. -/
inductive Replays : Set κ → List (Entry κ) → Set κ → Prop where
  | nil (S : Set κ) : Replays S [] S
  | opened {S S' : Set κ} {k : κ} {es : List (Entry κ)} (hk : k ∉ S)
      (h : Replays (insert k S) es S') : Replays S (.opened k :: es) S'
  | closed {S S' : Set κ} {k : κ} {es : List (Entry κ)} (hk : k ∈ S)
      (h : Replays (S \ {k}) es S') : Replays S (.closed k :: es) S'

/-- An entry that opens something new. -/
theorem replays_opened {S : Set κ} {k : κ} (hk : k ∉ S) :
    Replays S [.opened k] (insert k S) := .opened hk (.nil _)

/-- An entry that closes something open. -/
theorem replays_closed {S : Set κ} {k : κ} (hk : k ∈ S) :
    Replays S [.closed k] (S \ {k}) := .closed hk (.nil _)

/-- One ledger behind another. -/
theorem replays_append {S S'' : Set κ} {es fs : List (Entry κ)} :
    Replays S (es ++ fs) S'' ↔ ∃ S', Replays S es S' ∧ Replays S' fs S'' := by
  constructor
  · -- The first ledger is read off entry by entry, each changing the set to start from.
    intro h
    induction es generalizing S with
    | nil => exact ⟨S, .nil S, h⟩
    | cons e es ih =>
      cases h with
      | opened hk h =>
        obtain ⟨S', hes, hfs⟩ := ih h
        exact ⟨S', .opened hk hes, hfs⟩
      | closed hk h =>
        obtain ⟨S', hes, hfs⟩ := ih h
        exact ⟨S', .closed hk hes, hfs⟩
  · rintro ⟨S', hes, hfs⟩
    induction hes with
    | nil => exact hfs
    | opened hk _ ih => exact .opened hk (ih hfs)
    | closed hk _ ih => exact .closed hk (ih hfs)

/-- One stretch of the ledger after the other. -/
theorem Replays.append {S S' S'' : Set κ} {es fs : List (Entry κ)} (h : Replays S es S')
    (h' : Replays S' fs S'') : Replays S (es ++ fs) S'' := replays_append.mpr ⟨S', h, h'⟩

/-- A ledger leads to one set at most. -/
theorem Replays.unique {S S' S'' : Set κ} {es : List (Entry κ)} (h : Replays S es S')
    (h' : Replays S es S'') : S' = S'' := by
  induction h with
  | nil =>
    cases h'
    rfl
  | opened _ _ ih =>
    cases h' with
    | opened _ h' => exact ih h'
  | closed _ _ ih =>
    cases h' with
    | closed _ h' => exact ih h'

open Classical in
/-- **What is held** at the end has been got once more often than it has been given back, if it was
    not held at the start. -/
theorem Replays.count [DecidableEq κ] {S S' : Set κ} {es : List (Entry κ)} (h : Replays S es S')
    (k : κ) :
    es.count (.opened k) + (if k ∈ S then 1 else 0)
      = es.count (.closed k) + if k ∈ S' then 1 else 0 := by
  induction h with
  | nil => simp only [List.count_nil]
  | @opened S S' k' es hk _ ih =>
    simp only [List.count_cons, beq_iff_eq, Entry.opened.injEq, reduceCtorEq, if_false,
      Nat.add_zero]
    -- An entry about something else changes neither side.
    by_cases hkk : k' = k
    · subst hkk
      rw [if_pos (Set.mem_insert ..)] at ih
      rw [if_pos rfl, if_neg hk, ← ih]
    · have hmem : k ∈ insert k' S ↔ k ∈ S :=
        ⟨fun h => (Set.mem_insert_iff.mp h).resolve_left (Ne.symm hkk), Set.mem_insert_of_mem k'⟩
      simp only [hmem] at ih
      rw [if_neg hkk, ← ih, Nat.add_zero]
  | @closed S S' k' es hk _ ih =>
    simp only [List.count_cons, beq_iff_eq, Entry.closed.injEq, reduceCtorEq, if_false,
      Nat.add_zero]
    by_cases hkk : k' = k
    · subst hkk
      rw [if_neg fun h => h.2 rfl] at ih
      rw [if_pos rfl, if_pos hk]
      omega
    · have hmem : k ∈ S \ {k'} ↔ k ∈ S := ⟨fun h => h.1, fun h => ⟨h, Ne.symm hkk⟩⟩
      simp only [hmem] at ih
      rw [if_neg hkk, ih, Nat.add_zero]

/-- A ledger that leads back to where it started has given back all that it has got. -/
theorem Replays.count_eq [DecidableEq κ] {S : Set κ} {es : List (Entry κ)} (h : Replays S es S)
    (k : κ) : es.count (.opened k) = es.count (.closed k) := by
  have hcount := h.count k
  omega

/-- A ledger that gives back all that it gets, and nothing else. -/
structure Balanced (S : Set κ) (es : List (Entry κ)) : Prop where
  replays : Replays S es S
  spares : ∀ k ∈ S, .closed k ∉ es

theorem balanced_nil (S : Set κ) : Balanced S [] := ⟨.nil S, fun _ _ => List.not_mem_nil⟩

/-- Two balanced stretches make a balanced one. -/
theorem Balanced.append {S : Set κ} {es fs : List (Entry κ)} (h : Balanced S es)
    (h' : Balanced S fs) : Balanced S (es ++ fs) := by
  refine ⟨h.replays.append h'.replays, ?_⟩
  intro k hk hmem
  rcases List.mem_append.mp hmem with hes | hfs
  · exact h.spares k hk hes
  · exact h'.spares k hk hfs

/-- Something is got before a balanced ledger, and given back behind it. -/
theorem Balanced.wrap {S : Set κ} {k : κ} {es : List (Entry κ)} (hk : k ∉ S)
    (h : Balanced (insert k S) es) : Balanced S (.opened k :: (es ++ [.closed k])) := by
  have hback : insert k S \ {k} = S := Set.insert_sdiff_self_of_notMem hk
  refine ⟨.opened hk (h.replays.append ?_), ?_⟩
  · have hclosed := replays_closed (Set.mem_insert k S)
    rw [hback] at hclosed
    exact hclosed
  · -- What was held at the start is not what the last entry gives back.
    intro k' hk' hmem
    rcases List.mem_append.mp ((List.mem_cons.mp hmem).resolve_left nofun) with hes | hlast
    · exact h.spares k' (Set.mem_insert_of_mem k hk') hes
    · cases List.mem_singleton.mp hlast
      exact hk hk'

/-- What is held all the time is neither got nor given back. -/
theorem Balanced.count_eq_zero [DecidableEq κ] {S : Set κ} {k : κ} {es : List (Entry κ)}
    (h : Balanced S es) (hk : k ∈ S) : es.count (.opened k) = 0 ∧ es.count (.closed k) = 0 := by
  have hclosed : es.count (.closed k) = 0 := List.count_eq_zero.mpr (h.spares k hk)
  exact ⟨(h.replays.count_eq k).trans hclosed, hclosed⟩

/-- What is wrapped around a ledger is got once and given back once. -/
theorem Balanced.count_wrap [DecidableEq κ] {S : Set κ} {k : κ} {es : List (Entry κ)}
    (h : Balanced (insert k S) es) :
    (Entry.opened k :: (es ++ [.closed k])).count (.opened k) = 1 ∧
      (Entry.opened k :: (es ++ [.closed k])).count (.closed k) = 1 := by
  obtain ⟨hopened, hclosed⟩ := h.count_eq_zero (Set.mem_insert k S)
  constructor
  · simp [hopened]
  · simp [hclosed]

end Lib
