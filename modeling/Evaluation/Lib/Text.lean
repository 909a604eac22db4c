import Mathlib.Data.List.Basic
import Mathlib.Data.List.SplitBy
import Mathlib.Data.List.TakeWhile

namespace Lib

/-!
# Words and lines of a list

Cutting a list at separators.  `words sep l` are the maximal runs of elements that are no
separators; `lineOf nl l` is what stands before the first `nl`, and `afterLine nl l` what
stands behind it.

* `words_step` — the first word is what is left of `l` after its leading separators, up to the
  next separator, and the other words are those of the rest;
* `words_append_cons` — a word, a separator, more;
* `line_cases` — a list has no `nl`, or is its first line, `nl`, and the rest;
* `splitBy_blocks` — blocks of lines are found again by the lines that start one.
-/

variable {α : Type}

/-! ### Runs -/

/-- The elements that `takeWhile` counts are those that it takes. -/
theorem take_length_takeWhile (p : α → Bool) (l : List α) :
    l.take (l.takeWhile p).length = l.takeWhile p :=
  (List.prefix_iff_eq_take.mp (List.takeWhile_prefix p)).symm

/-- Behind them stands what `dropWhile` leaves. -/
theorem drop_length_takeWhile (p : α → Bool) (l : List α) :
    l.drop (l.takeWhile p).length = l.dropWhile p := by
  calc l.drop (l.takeWhile p).length
      = (l.takeWhile p ++ l.dropWhile p).drop (l.takeWhile p).length := by
        rw [List.takeWhile_append_dropWhile]
    _ = l.dropWhile p := List.drop_left

/-- Some element fails a test if and only if `dropWhile` stops at one. -/
theorem any_not_eq (p : α → Bool) (l : List α) :
    (l.any fun b => !p b) = !(l.dropWhile p).isEmpty := by
  induction l with
  | nil => rfl
  | cons b l ih =>
    by_cases hp : p b = true
    · rw [List.any_cons, List.dropWhile_cons_of_pos hp, ← ih, hp]
      rfl
    · rw [List.any_cons, List.dropWhile_cons_of_neg hp, Bool.eq_false_iff.mpr hp]
      rfl

/-- Some element fails a test if and only if not all pass it. -/
theorem any_not_eq_not_all (p : α → Bool) (l : List α) : (l.any fun b => !p b) = !l.all p := by
  induction l with
  | nil => rfl
  | cons b l ih => rw [List.any_cons, List.all_cons, Bool.not_and, ih]

/-- Where all elements pass the test all are taken. -/
theorem takeWhile_of_all {p : α → Bool} {l : List α} (h : ∀ a ∈ l, p a = true) :
    l.takeWhile p = l := List.takeWhile_eq_self_iff.mpr h

/-- Where all elements pass the test none is left. -/
theorem dropWhile_of_all {p : α → Bool} {l : List α} (h : ∀ a ∈ l, p a = true) :
    l.dropWhile p = [] := List.dropWhile_eq_nil_iff.mpr h

/-- A run of a stronger property ends earlier. -/
theorem takeWhile_prefix_takeWhile {p q : α → Bool} (h : ∀ a, p a = true → q a = true)
    (l : List α) : l.takeWhile p <+: l.takeWhile q := by
  induction l with
  | nil => exact List.prefix_rfl
  | cons a l ih =>
    by_cases hp : p a = true
    · rw [List.takeWhile_cons_of_pos hp, List.takeWhile_cons_of_pos (h a hp)]
      exact List.cons_prefix_cons.mpr ⟨rfl, ih⟩
    · rw [List.takeWhile_cons_of_neg hp]
      exact List.nil_prefix

/-- A run ends before an element that does not belong to it. -/
theorem takeWhile_append_of_head {p : α → Bool} {l t : List α} (h : ∀ a ∈ l, p a = true)
    (ht : ∀ a ∈ t.head?, p a = false) : (l ++ t).takeWhile p = l := by
  rw [List.takeWhile_append_of_pos h]
  cases t with
  | nil => rw [List.takeWhile_nil, List.append_nil]
  | cons a t =>
    have ha : ¬ p a = true := Bool.eq_false_iff.mp (ht a (by simp))
    rw [List.takeWhile_cons_of_neg ha, List.append_nil]

/-- What is dropped ends where an element fails the test. -/
theorem dropWhile_append_of_head {p : α → Bool} {l t : List α} (h : ∀ a ∈ l, p a = true)
    (ht : ∀ a ∈ t.head?, p a = false) : (l ++ t).dropWhile p = t := by
  rw [List.dropWhile_append_of_pos h]
  cases t with
  | nil => rfl
  | cons a t =>
    have ha : ¬ p a = true := Bool.eq_false_iff.mp (ht a (by simp))
    rw [List.dropWhile_cons_of_neg ha]

/-- What is left after a run does not start with an element of it. -/
theorem head_dropWhile (p : α → Bool) (l : List α) : ∀ a ∈ (l.dropWhile p).head?, p a = false := by
  intro a ha
  have h := List.head?_dropWhile_not p l
  rw [Option.mem_def.mp ha] at h
  simpa using h

/-! ### Words -/

/-- The maximal runs of elements that are no separators. -/
def words (sep : α → Bool) (l : List α) : List (List α) :=
  (l.splitOnP sep).filter fun w => !w.isEmpty

@[simp] theorem words_nil (sep : α → Bool) : words sep [] = [] := rfl

/-- A separator in front changes no word. -/
theorem words_cons_sep {sep : α → Bool} {a : α} (ha : sep a = true) (l : List α) :
    words sep (a :: l) = words sep l := by
  rw [words, List.splitOnP_cons_eq_if_modifyHead, if_pos ha]
  rfl

/-- Leading separators make no words. -/
theorem words_dropWhile (sep : α → Bool) (l : List α) :
    words sep (l.dropWhile sep) = words sep l := by
  induction l with
  | nil => rfl
  | cons a l ih =>
    by_cases ha : sep a = true
    · rw [List.dropWhile_cons_of_pos ha, ih, words_cons_sep ha]
    · rw [List.dropWhile_cons_of_neg ha]

/-- A text without separators is one word. -/
theorem words_of_no_sep {sep : α → Bool} {w : List α} (hne : w ≠ [])
    (hw : ∀ a ∈ w, sep a = false) : words sep w = [w] := by
  rw [words, List.splitOnP_eq_singleton hw]
  simp [hne]

/-- **A word, a separator, more.** -/
theorem words_append_cons {sep : α → Bool} {w : List α} {a : α} (hne : w ≠ [])
    (hw : ∀ a ∈ w, sep a = false) (ha : sep a = true) (l : List α) :
    words sep (w ++ a :: l) = w :: words sep l := by
  rw [words, List.splitOnP_append_cons_of_forall_mem hw a ha]
  simp [words, hne]

/-- **The first word** and the words of what stands behind it. -/
theorem words_step {sep : α → Bool} {l : List α} (h : l.dropWhile sep ≠ []) :
    words sep l = ((l.dropWhile sep).takeWhile fun a => !sep a)
      :: words sep ((l.dropWhile sep).dropWhile fun a => !sep a) := by
  rw [← words_dropWhile sep l]
  have hhead := head_dropWhile sep l
  generalize l.dropWhile sep = m at h hhead
  have hword : ∀ a ∈ m.takeWhile (fun a => !sep a), sep a = false := by
    intro a ha
    simpa using List.mem_takeWhile_imp ha
  have hne : m.takeWhile (fun a => !sep a) ≠ [] := by
    obtain ⟨b, m, rfl⟩ := List.exists_cons_of_ne_nil h
    have hb : sep b = false := hhead b (by simp)
    rw [List.takeWhile_cons_of_pos (by rw [hb]; rfl)]
    exact List.cons_ne_nil _ _
  have hrest := head_dropWhile (fun a => !sep a) m
  conv_lhs => rw [← List.takeWhile_append_dropWhile (p := fun a => !sep a) (l := m)]
  cases hd : m.dropWhile (fun a => !sep a) with
  | nil => rw [List.append_nil, words_of_no_sep hne hword, words_nil]
  | cons b r =>
    have hb : sep b = true := by simpa using hrest b (by rw [hd]; rfl)
    rw [words_append_cons hne hword hb, words_cons_sep hb]

/-- There are no words if and only if there are only separators. -/
theorem words_eq_nil_iff {sep : α → Bool} {l : List α} :
    words sep l = [] ↔ l.dropWhile sep = [] := by
  constructor
  · intro h
    by_contra hne
    rw [words_step hne] at h
    cases h
  · intro h
    rw [← words_dropWhile, h, words_nil]

/-- A word is not empty and has no separator in it. -/
theorem of_mem_words {sep : α → Bool} {l w : List α} (h : w ∈ words sep l) :
    w ≠ [] ∧ ∀ a ∈ w, sep a = false := by
  -- Induction on the length: the other words are those of a shorter list.
  induction hn : l.length using Nat.strong_induction_on generalizing l with
  | _ n ih =>
    by_cases hd : l.dropWhile sep = []
    · rw [words_eq_nil_iff.mpr hd] at h
      cases h
    · obtain ⟨b, m, hm⟩ := List.exists_cons_of_ne_nil hd
      have hb : sep b = false := head_dropWhile sep l b (by rw [hm]; rfl)
      have htake : ((b :: m).takeWhile fun a => !sep a) = b :: m.takeWhile fun a => !sep a :=
        List.takeWhile_cons_of_pos (by rw [hb]; rfl)
      have hdrop : ((b :: m).dropWhile fun a => !sep a) = m.dropWhile fun a => !sep a :=
        List.dropWhile_cons_of_pos (by rw [hb]; rfl)
      rw [words_step hd, hm, htake, hdrop] at h
      rcases List.mem_cons.mp h with rfl | hrest
      · refine ⟨List.cons_ne_nil _ _, ?_⟩
        intro a ha
        rcases List.mem_cons.mp ha with rfl | hmem
        · exact hb
        · simpa using List.mem_takeWhile_imp hmem
      · have h1 := congrArg List.length hm
        have h2 := (List.dropWhile_suffix (l := l) sep).length_le
        have h3 := (List.dropWhile_suffix (l := m) (fun a => !sep a)).length_le
        rw [List.length_cons] at h1
        exact ih _ (by omega) hrest rfl

/-! ### Prefixes -/

/-- A prefix of `w ++ a :: l` is one of `w`, or goes past the `a`. -/
theorem prefix_append_cons_cases {P w l : List α} {a : α} (h : P <+: w ++ a :: l) :
    P <+: w ∨ ∃ P', P = w ++ a :: P' ∧ P' <+: l := by
  have hwa : w ++ [a] <+: w ++ a :: l :=
    (List.prefix_append_right_inj w).mpr (List.cons_prefix_cons.mpr ⟨rfl, List.nil_prefix⟩)
  rcases List.prefix_or_prefix_of_prefix h hwa with hle | ⟨P', rfl⟩
  · rcases List.prefix_concat_iff.mp hle with rfl | hw
    · exact .inr ⟨[], rfl, List.nil_prefix⟩
    · exact .inl hw
  · rw [List.append_assoc] at h ⊢
    have hcons := (List.prefix_append_right_inj w).mp h
    exact .inr ⟨P', rfl, (List.cons_prefix_cons.mp hcons).2⟩

/-- A prefix of a word is a word, or nothing. -/
theorem words_of_prefix {sep : α → Bool} {P w : List α} (h : P <+: w)
    (hw : ∀ a ∈ w, sep a = false) : words sep P = [] ∨ words sep P = [P] := by
  by_cases hP : P = []
  · rw [hP, words_nil]
    exact .inl rfl
  · exact .inr (words_of_no_sep hP fun a ha => hw a (h.subset ha))

/-! ### Joined lines -/

/-- What stands in front of joined lines stands in front of the first. -/
theorem append_intercalate_cons (s a w : List α) (ws : List (List α)) :
    a ++ s.intercalate (w :: ws) = s.intercalate ((a ++ w) :: ws) := by
  cases ws with
  | nil => rw [List.intercalate_singleton, List.intercalate_singleton]
  | cons v ws =>
    rw [List.intercalate_cons_cons, List.intercalate_cons_cons]
    simp only [List.append_assoc]

/-- A prefix of every line but the first can as well stand in the separator. -/
theorem intercalate_cons_eq (nl : α) (c w : List α) (ws : List (List α)) :
    (nl :: c).intercalate (w :: ws) = [nl].intercalate (w :: ws.map (c ++ ·)) := by
  induction ws generalizing w with
  | nil => rw [List.map_nil, List.intercalate_singleton, List.intercalate_singleton]
  | cons v ws ih =>
    calc (nl :: c).intercalate (w :: v :: ws)
        = w ++ [nl] ++ (c ++ [nl].intercalate (v :: ws.map (c ++ ·))) := by
          rw [List.intercalate_cons_cons, ih]
          simp
      _ = [nl].intercalate (w :: (v :: ws).map (c ++ ·)) := by
          rw [append_intercalate_cons, List.map_cons, List.intercalate_cons_cons]

/-- Joined lines with a last end are lines that are all ended. -/
theorem intercalate_append_end (nl : α) {ls : List (List α)} (h : ls ≠ []) :
    [nl].intercalate ls ++ [nl] = ls.flatMap fun l => l ++ [nl] := by
  obtain ⟨l, ls, rfl⟩ := List.exists_cons_of_ne_nil h
  induction ls generalizing l with
  | nil => simp
  | cons w ws ih =>
    rw [List.intercalate_cons_cons, List.append_assoc, ih w (List.cons_ne_nil _ _)]
    simp only [List.flatMap_cons]

/-- Lines that are not empty do not leave the separator at the end. -/
theorem getLast?_intercalate_ne {nl : α} {ls : List (List α)} (hne : ∀ l ∈ ls, l ≠ [])
    (h : ∀ l ∈ ls, nl ∉ l) : ([nl].intercalate ls).getLast? ≠ some nl := by
  induction ls with
  | nil => simp
  | cons w ws ih =>
    have ih' := ih (fun l hl => hne l (List.mem_cons_of_mem _ hl))
      fun l hl => h l (List.mem_cons_of_mem _ hl)
    cases ws with
    | nil =>
      rw [List.intercalate_singleton]
      exact fun hlast => h w (by simp) (List.mem_of_getLast? hlast)
    | cons v ws =>
      have hrest : [nl].intercalate (v :: ws) ≠ [] := by
        have hv := hne v (by simp)
        cases ws with
        | nil => rwa [List.intercalate_singleton]
        | cons u ws =>
          rw [List.intercalate_cons_cons]
          simp [hv]
      rw [List.intercalate_cons_cons, List.getLast?_append_of_ne_nil _ hrest]
      exact ih'

/-! ### Lines -/

variable [DecidableEq α]

/-- What stands before the first `nl`. -/
def lineOf (nl : α) (l : List α) : List α := l.takeWhile fun b => b != nl

/-- What stands behind the first `nl`. -/
def afterLine (nl : α) (l : List α) : List α := (l.dropWhile fun b => b != nl).tail

/-- A line has no newline in it. -/
theorem not_mem_lineOf (nl : α) (l : List α) : nl ∉ lineOf nl l := by
  intro h
  have := List.mem_takeWhile_imp h
  simp at this

/-- With no newline the text is one line. -/
theorem lineOf_of_not_mem {nl : α} {l : List α} (h : nl ∉ l) : lineOf nl l = l :=
  takeWhile_of_all fun a ha => by simpa using ne_of_mem_of_not_mem ha h

/-- With no newline nothing stands behind the line. -/
theorem afterLine_of_not_mem {nl : α} {l : List α} (h : nl ∉ l) : afterLine nl l = [] := by
  have hall : ∀ a ∈ l, (a != nl) = true := fun a ha => by simpa using ne_of_mem_of_not_mem ha h
  rw [afterLine, dropWhile_of_all hall, List.tail_nil]

theorem lineOf_append_cons {nl : α} {l : List α} (h : nl ∉ l) (t : List α) :
    lineOf nl (l ++ nl :: t) = l :=
  takeWhile_append_of_head (fun a ha => by simpa using ne_of_mem_of_not_mem ha h) (by simp)

theorem afterLine_append_cons {nl : α} {l : List α} (h : nl ∉ l) (t : List α) :
    afterLine nl (l ++ nl :: t) = t := by
  rw [afterLine, dropWhile_append_of_head
    (fun a ha => by simpa using ne_of_mem_of_not_mem ha h) (by simp), List.tail_cons]

/-- **A list has no `nl`, or is its first line, `nl`, and the rest.** -/
theorem line_cases (nl : α) (l : List α) :
    (nl ∉ l ∧ lineOf nl l = l ∧ afterLine nl l = []) ∨
      l = lineOf nl l ++ nl :: afterLine nl l := by
  by_cases h : nl ∈ l
  · obtain ⟨a, b, hab, ha⟩ := List.eq_append_cons_of_mem h
    refine .inr ?_
    rw [hab, lineOf_append_cons ha, afterLine_append_cons ha]
  · exact .inl ⟨h, lineOf_of_not_mem h, afterLine_of_not_mem h⟩

/-- A line that a newline ends is shorter than the text. -/
theorem length_lineOf_lt {nl : α} {l : List α} (h : nl ∈ l) :
    (lineOf nl l).length < l.length := by
  rcases line_cases nl l with ⟨hno, -⟩ | hl
  · exact absurd h hno
  · have hlen := congrArg List.length hl
    rw [List.length_append, List.length_cons] at hlen
    omega

/-- Where there is no newline none is found. -/
theorem findIdx?_of_not_mem {nl : α} {l : List α} (h : nl ∉ l) : l.findIdx? (· == nl) = none :=
  List.findIdx?_eq_none_iff.mpr fun a ha => by simpa using ne_of_mem_of_not_mem ha h

/-- `findIdx?` finds the end of the first line. -/
theorem findIdx?_of_mem {nl : α} {l : List α} (h : nl ∈ l) :
    l.findIdx? (· == nl) = some (lineOf nl l).length := by
  obtain ⟨a, b, rfl, ha⟩ := List.eq_append_cons_of_mem h
  rw [List.findIdx?_append, findIdx?_of_not_mem ha, lineOf_append_cons ha]
  simp [List.findIdx?_cons]

/-- The length of the line cuts it off the text. -/
theorem take_length_lineOf (nl : α) (l : List α) :
    l.take (lineOf nl l).length = lineOf nl l := take_length_takeWhile _ l

/-- One more passes over the newline. -/
theorem drop_length_lineOf (nl : α) (l : List α) :
    l.drop ((lineOf nl l).length + 1) = afterLine nl l := by
  rw [← List.drop_drop, lineOf, drop_length_takeWhile, List.drop_one]
  rfl

/-- Behind a line less is left. -/
theorem length_afterLine_lt {nl : α} {l : List α} (h : l ≠ []) :
    (afterLine nl l).length < l.length := by
  have hpos := List.length_pos_of_ne_nil h
  rw [← drop_length_lineOf, List.length_drop]
  omega

/-! ### All lines -/

/-- The lines of a list: a line ends at an `nl` or at the end of the list, and an empty
    remainder behind the last `nl` is no line. -/
def linesOf (nl : α) (l : List α) : List (List α) :=
  let pieces := l.splitOn nl
  if pieces.getLast? = some [] then pieces.dropLast else pieces

/-- What stands behind the first line with a property; nothing when no line has it. -/
def behindLine (nl : α) (p : List α → Bool) (l : List α) : List α :=
  [nl].intercalate ((l.splitOn nl).dropWhile fun w => !p w).tail

/-- Splitting at the newlines takes the lines off one by one. -/
theorem splitOn_step {nl : α} {l : List α} (h : nl ∈ l) :
    l.splitOn nl = lineOf nl l :: (afterLine nl l).splitOn nl := by
  obtain ⟨a, b, rfl, ha⟩ := List.eq_append_cons_of_mem h
  rw [List.splitOn_append_cons_self_of_not_mem ha, lineOf_append_cons ha, afterLine_append_cons ha]

@[simp] theorem linesOf_nil (nl : α) : linesOf nl [] = [] := rfl

/-- **The first line** and the lines behind it. -/
theorem linesOf_step {nl : α} {l : List α} (h : l ≠ []) :
    linesOf nl l = lineOf nl l :: linesOf nl (afterLine nl l) := by
  by_cases hnl : nl ∈ l
  · have hne : (afterLine nl l).splitOn nl ≠ [] := List.splitOn_ne_nil nl _
    simp only [linesOf, splitOn_step hnl, List.getLast?_cons_of_ne_nil hne,
      List.dropLast_cons_of_ne_nil hne]
    split <;> rfl
  · rw [lineOf_of_not_mem hnl, afterLine_of_not_mem hnl, linesOf_nil, linesOf,
      List.splitOn_eq_singleton hnl]
    exact if_neg (by simpa using h)

/-- A piece has no separator in it. -/
theorem not_mem_of_mem_splitOn {nl : α} {l w : List α} (h : w ∈ l.splitOn nl) : nl ∉ w := by
  -- Induction on the length: what stands behind the first line is shorter.
  induction hn : l.length using Nat.strong_induction_on generalizing l with
  | _ n ih =>
    by_cases hnl : nl ∈ l
    · rw [splitOn_step hnl] at h
      rcases List.mem_cons.mp h with rfl | hrest
      · exact not_mem_lineOf nl l
      · have hlt : (afterLine nl l).length < n := by
          rw [← hn]
          exact length_afterLine_lt (List.ne_nil_of_mem hnl)
        exact ih _ hlt hrest rfl
    · rw [List.splitOn_eq_singleton hnl, List.mem_singleton] at h
      rw [h]
      exact hnl

/-- When every line is ended, the lines are what is between the ends. -/
theorem linesOf_intercalate {nl : α} {ls : List (List α)} (hne : ls ≠ [])
    (h : ∀ l ∈ ls, nl ∉ l) : linesOf nl ([nl].intercalate ls ++ [nl]) = ls := by
  have hsplit : ([nl].intercalate ls ++ [nl]).splitOn nl = ls ++ [[]] := by
    rw [List.splitOn_append_cons_self, List.splitOn_intercalate nl h hne, List.splitOn_nil]
  rw [linesOf, hsplit]
  simp

/-- **Behind the first line**, or further on. -/
theorem behindLine_step (nl : α) (p : List α → Bool) (l : List α) :
    behindLine nl p l
      = if p (lineOf nl l) then afterLine nl l else behindLine nl p (afterLine nl l) := by
  by_cases hnl : nl ∈ l
  · rw [behindLine, splitOn_step hnl]
    by_cases hp : p (lineOf nl l) = true
    · rw [if_pos hp, List.dropWhile_cons_of_neg (by rw [hp]; exact Bool.false_ne_true),
        List.tail_cons, List.intercalate_splitOn]
    · rw [if_neg hp, List.dropWhile_cons_of_pos (by simpa using hp), behindLine]
  · -- The last line: nothing stands behind it, whether it has the property or not.
    have hnone : ∀ w : List α, nl ∉ w → behindLine nl p w = [] := by
      intro w hw
      rw [behindLine, List.splitOn_eq_singleton hw, List.dropWhile_cons]
      split <;> rfl
    rw [hnone l hnl, afterLine_of_not_mem hnl, hnone [] (by simp), ite_self]

/-- What stands behind a line is an end of the text. -/
theorem afterLine_suffix (nl : α) (l : List α) : afterLine nl l <:+ l :=
  (List.tail_suffix _).trans (List.dropWhile_suffix _)

@[simp] theorem behindLine_nil (nl : α) (p : List α → Bool) : behindLine nl p [] = [] := by
  rw [behindLine, List.splitOn_nil, List.dropWhile_cons]
  split <;> rfl

/-- What stands behind a line of the right kind is an end of the text. -/
theorem behindLine_suffix (nl : α) (p : List α → Bool) (l : List α) : behindLine nl p l <:+ l := by
  -- Induction on the length: what is looked at next is shorter.
  induction hn : l.length using Nat.strong_induction_on generalizing l with
  | _ n ih =>
    by_cases hne : l = []
    · have hnil : behindLine nl p l = [] := by rw [hne, behindLine_nil]
      rw [hnil]
      exact List.nil_suffix
    · rw [behindLine_step]
      split
      · exact afterLine_suffix nl l
      · have hlt : (afterLine nl l).length < n := by
          rw [← hn]
          exact length_afterLine_lt hne
        exact (ih _ hlt _ rfl).trans (afterLine_suffix nl l)

/-- What stands behind a line of the right kind is shorter than the text. -/
theorem length_behindLine_lt {nl : α} {l : List α} (p : List α → Bool) (h : l ≠ []) :
    (behindLine nl p l).length < l.length := by
  have hlt : (afterLine nl l).length < l.length := length_afterLine_lt h
  rw [behindLine_step]
  split
  · exact hlt
  · exact lt_of_le_of_lt (behindLine_suffix nl p _).length_le hlt

/-- Pieces joined by anything: that in the place of each separator. -/
theorem intercalate_splitOn_eq_flatMap (nl : α) (s l : List α) :
    s.intercalate (l.splitOn nl) = l.flatMap fun a => if a = nl then s else [a] := by
  induction l with
  | nil =>
    rw [List.splitOn_nil, List.intercalate_singleton]
    rfl
  | cons a l ih =>
    obtain ⟨w, ws, hw⟩ := List.exists_cons_of_ne_nil (List.splitOn_ne_nil nl l)
    rw [List.splitOn_cons_eq_if_modifyHead, List.flatMap_cons, ← ih, hw]
    by_cases ha : a = nl
    · rw [if_pos (by simpa using ha), if_pos ha, List.intercalate_cons_cons, List.nil_append]
    · rw [if_neg (by simpa using ha), if_neg ha, List.modifyHead_cons,
        List.intercalate_cons_cons_left, List.singleton_append]

/-- When each line is ended, the lines are those that have been put together. -/
theorem linesOf_flatMap {nl : α} {ls : List (List α)} (h : ∀ l ∈ ls, nl ∉ l) :
    linesOf nl (ls.flatMap fun l => l ++ [nl]) = ls := by
  induction ls with
  | nil => rfl
  | cons l ls ih =>
    have hl : nl ∉ l := h l List.mem_cons_self
    rw [List.flatMap_cons, List.append_assoc, List.singleton_append, linesOf_step (by simp),
      lineOf_append_cons hl, afterLine_append_cons hl,
      ih fun w hw => h w (List.mem_cons_of_mem _ hw)]

/-! ### Blocks of lines -/

section

variable {β : Type} {further : β → Bool}

/-- A block: an element that starts one, and further ones. -/
def IsBlock (further : β → Bool) (b : List β) : Prop :=
  ∃ l ls, b = l :: ls ∧ further l = false ∧ ∀ w ∈ ls, further w = true

/-- Lines that all go on form a chain, whatever the first is. -/
theorem isChain_further (l : β) {ls : List β} (h : ∀ w ∈ ls, further w = true) :
    (l :: ls).IsChain fun _ w => further w = true := by
  induction ls generalizing l with
  | nil => exact .singleton l
  | cons w ls ih =>
    exact .cons_cons (h w List.mem_cons_self) (ih w fun v hv => h v (List.mem_cons_of_mem _ hv))

/-- **Blocks are found again** in what is put together from them. -/
theorem splitBy_blocks {bs : List (List β)} (h : ∀ b ∈ bs, IsBlock further b) :
    (bs.flatten.splitBy fun _ l => further l) = bs := by
  induction bs with
  | nil => rfl
  | cons b bs ih =>
    obtain ⟨l, ls, rfl, -, hls⟩ := h b List.mem_cons_self
    have hrest : ∀ b ∈ bs, IsBlock further b := fun b hb => h b (List.mem_cons_of_mem _ hb)
    -- The next block starts with an element that is no further one.
    have hnext : ∀ x ∈ (l :: ls).getLast?, ∀ y ∈ bs.flatten.head?, further y = false := by
      intro _ _ y hy
      cases bs with
      | nil => cases hy
      | cons b' bs =>
        obtain ⟨l', ls', rfl, hl', -⟩ := hrest b' List.mem_cons_self
        obtain rfl : l' = y := Option.some.inj hy
        exact hl'
    rw [List.flatten_cons, List.splitBy_append hnext, ih hrest,
      List.splitBy_of_isChain (List.cons_ne_nil _ _) (isChain_further l hls)]
    rfl

end

end Lib
