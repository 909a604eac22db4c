import Mathlib.Data.List.Induction

namespace Lib

/-!
# Merging two lists

Two histories that go on side by side leave one, in which each keeps its own order.  As histories
grow at their end, so does the relation.

* `Merges` — a list is merged from two others;
* `Merges.filterMap` — what is picked from it is merged from what is picked from them;
* `Merges.perm` — nothing is lost, and nothing comes twice;
* `merges_nil_iff` — with nothing going on at its side a list stays as it is.
-/

/-- **`zs` is merged from `xs` and `ys`**, each in its own order. -/
inductive Merges {α : Type} : List α → List α → List α → Prop where
  | nil : Merges [] [] []
  | left {xs ys zs : List α} (x : α) (h : Merges xs ys zs) : Merges (xs ++ [x]) ys (zs ++ [x])
  | right {xs ys zs : List α} (y : α) (h : Merges xs ys zs) : Merges xs (ys ++ [y]) (zs ++ [y])

namespace Merges

variable {α β : Type} {xs ys zs : List α}

/-- What is kept of a merge is a merge of what is kept. -/
theorem filterMap (f : α → Option β) (h : Merges xs ys zs) :
    Merges (xs.filterMap f) (ys.filterMap f) (zs.filterMap f) := by
  induction h with
  | nil => exact .nil
  | left x _ ih =>
    rw [List.filterMap_append, List.filterMap_append]
    cases hx : f x with
    | none => simpa [hx] using ih
    | some b => simpa [hx] using ih.left b
  | right y _ ih =>
    rw [List.filterMap_append, List.filterMap_append]
    cases hy : f y with
    | none => simpa [hy] using ih
    | some b => simpa [hy] using ih.right b

/-- A merge has the elements of both lists. -/
theorem perm (h : Merges xs ys zs) : zs.Perm (xs ++ ys) := by
  induction h with
  | nil => exact List.Perm.refl _
  | left x _ ih =>
    rw [List.append_assoc]
    have hlast := (List.perm_append_singleton x _).trans (ih.cons x)
    exact hlast.trans List.perm_middle.symm
  | right y _ ih =>
    rw [← List.append_assoc]
    exact ih.append_right [y]

end Merges

/-- With nothing to put between, a merge is the list itself. -/
theorem merges_nil_iff {α : Type} {xs zs : List α} : Merges xs [] zs ↔ zs = xs := by
  constructor
  · intro h
    generalize hys : ([] : List α) = ys at h
    induction h with
    | nil => rfl
    | left x _ ih => rw [ih hys]
    | right y _ _ => simp at hys
  · rintro rfl
    induction zs using List.reverseRecOn with
    | nil => exact .nil
    | append_singleton zs z ih => exact ih.left z

end Lib
