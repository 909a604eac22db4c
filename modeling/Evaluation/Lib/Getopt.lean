import Evaluation.Lib.Text
import Mathlib.Data.List.Induction

namespace Lib

/-!
# `getopt_long`

The reader of command lines, for any table of options.  It looks at the elements of a command line
one after the other: a dash and some letters, two dashes and a name, or an operand, which is passed
over.  An option takes its argument from the rest of its element or from the next element.

* `OptionTable.next` — one call: what has been read, and where the reader then stands;
* `OptionTable.size_next` — each call leaves less to be read;
* `OptionTable.spell` — the ways to write an option with an argument; `next_spell` — however it is
  written, it is read with that argument, whatever the argument is and whatever follows;
* `foldl_lastWrite` — what options have set is what the last of them has set.
-/

variable {α : Type}

/-- The characters with a meaning, and the options: each with its letter, and whether it takes an
    argument. -/
structure OptionTable (α : Type) where
  dash : α
  equals : α
  /-- What is read in place of an option that is not known, -/
  invalid : α
  /-- and of one whose argument is missing. -/
  missing : α
  short : List (α × Bool)
  long : List (List α × Bool × α)

/-- What a call returns: a letter, with `optarg` and `optopt`. -/
structure OptionRead (α : Type) where
  option : α
  optarg : Option (List α) := none
  optopt : Option α := none
  deriving DecidableEq, Repr

/-- Where the reader stands: what is left of an element with several letters, and the elements
    behind it. -/
structure Getopt (α : Type) where
  letters : List α := []
  args : List (List α)
  deriving DecidableEq, Repr

namespace OptionTable

/-- An option whose argument is the next element. -/
def readNext (t : OptionTable α) (c : α) : List (List α) → OptionRead α × Getopt α
  | [] => ({ option := t.missing, optopt := some c }, { args := [] })
  | arg :: args => ({ option := c, optarg := some arg }, { args })

variable [DecidableEq α]

/-- A letter, the rest of its element, and the elements behind it. -/
def readShort (t : OptionTable α) (c : α) (rest : List α) (args : List (List α)) :
    OptionRead α × Getopt α :=
  match t.short.lookup c with
  | none => ({ option := t.invalid, optopt := some c }, ⟨rest, args⟩)
  | some false => ({ option := c }, ⟨rest, args⟩)
  | some true =>
    if rest = [] then t.readNext c args
    else ({ option := c, optarg := some rest }, { args })

/-- The option of a name: the one that is called so, or the only one whose name starts so. -/
def ofName (t : OptionTable α) (name : List α) : Option (Bool × α) :=
  match t.long.lookup name with
  | some o => some o
  | none =>
    match t.long.filter fun e => name.isPrefixOf e.1 with
    | [e] => some e.2
    | _ => none

/-- What stands behind two dashes, and the elements behind it. -/
def readLong (t : OptionTable α) (text : List α) (args : List (List α)) :
    OptionRead α × Getopt α :=
  match t.ofName (lineOf t.equals text) with
  | none => ({ option := t.invalid }, { args })
  | some (takes, c) =>
    if t.equals ∈ text then
      if takes then ({ option := c, optarg := some (afterLine t.equals text) }, { args })
      else ({ option := t.invalid, optopt := some c }, { args })
    else if takes then t.readNext c args
    else ({ option := c }, { args })

/-- An element that is no option. -/
def isOperand (t : OptionTable α) (arg : List α) : Bool :=
  arg.head? != some t.dash || arg.tail.isEmpty

/-- **One call**; nothing at the end, or at two dashes alone. -/
def next (t : OptionTable α) (g : Getopt α) : Option (OptionRead α × Getopt α) :=
  match g.letters with
  | c :: rest => some (t.readShort c rest g.args)
  | [] =>
    match g.args.dropWhile t.isOperand with
    | [] => none
    | arg :: args =>
      match arg.tail with
      | [] => none
      | c :: rest =>
        if c ≠ t.dash then some (t.readShort c rest args)
        else if rest = [] then none
        else some (t.readLong rest args)

end OptionTable

/-! ### The reader comes to its end -/

/-- What is left to be read. -/
def Getopt.size (g : Getopt α) : ℕ :=
  g.letters.length + (g.args.flatten.length + g.args.length)

theorem Getopt.size_cons (letters arg : List α) (args : List (List α)) :
    Getopt.size ⟨letters, arg :: args⟩ = arg.length + 1 + Getopt.size ⟨letters, args⟩ := by
  simp only [Getopt.size, List.flatten_cons, List.length_append, List.length_cons]
  omega

/-- The letters that are left of a cluster count on top of the arguments. -/
theorem Getopt.size_letters (letters : List α) (args : List (List α)) :
    Getopt.size ⟨letters, args⟩ = letters.length + Getopt.size ⟨[], args⟩ := by
  simp only [Getopt.size, List.length_nil, Nat.zero_add]

/-- Arguments that are passed over count no more. -/
theorem Getopt.size_dropWhile (p : List α → Bool) (args : List (List α)) :
    Getopt.size ⟨[], args.dropWhile p⟩ ≤ Getopt.size ⟨[], args⟩ := by
  induction args with
  | nil => exact le_rfl
  | cons arg args ih =>
    rw [List.dropWhile_cons]
    split
    · rw [Getopt.size_cons]
      omega
    · exact le_rfl

namespace OptionTable

variable (t : OptionTable α)

/-- Taking the next argument makes the rest no larger. -/
theorem size_readNext (c : α) (args : List (List α)) :
    (t.readNext c args).2.size ≤ Getopt.size ⟨[], args⟩ := by
  cases args with
  | nil => exact le_rfl
  | cons arg args =>
    show Getopt.size ⟨[], args⟩ ≤ _
    rw [Getopt.size_cons]
    omega

variable [DecidableEq α]

/-- Reading a short option makes the rest no larger. -/
theorem size_readShort (c : α) (rest : List α) (args : List (List α)) :
    (t.readShort c rest args).2.size ≤ Getopt.size ⟨rest, args⟩ := by
  unfold readShort
  rw [Getopt.size_letters rest]
  cases t.short.lookup c with
  | none => exact (Getopt.size_letters rest args).le
  | some takes =>
    cases takes with
    | false => exact (Getopt.size_letters rest args).le
    | true =>
      dsimp only
      split
      · exact (t.size_readNext c args).trans (Nat.le_add_left _ _)
      · exact Nat.le_add_left _ _

/-- Reading a long option makes the rest no larger. -/
theorem size_readLong (text : List α) (args : List (List α)) :
    (t.readLong text args).2.size ≤ Getopt.size ⟨[], args⟩ := by
  unfold readLong
  split
  · exact le_rfl
  · split
    · split <;> exact le_rfl
    · split
      · exact t.size_readNext _ args
      · exact le_rfl

variable {t}

/-- **A call** leaves less to be read. -/
theorem size_next {g g' : Getopt α} {r : OptionRead α} (h : t.next g = some (r, g')) :
    g'.size < g.size := by
  obtain ⟨letters, args⟩ := g
  unfold next at h
  cases letters with
  | cons c rest =>
    have hread := t.size_readShort c rest args
    rw [Option.some.inj h, Getopt.size_letters rest] at hread
    rw [Getopt.size_letters (c :: rest), List.length_cons]
    dsimp only at hread
    omega
  | nil =>
    have hdrop := Getopt.size_dropWhile t.isOperand args
    dsimp only at h
    cases hargs : args.dropWhile t.isOperand with
    | nil =>
      rw [hargs] at h
      cases h
    | cons arg rest =>
      rw [hargs] at h hdrop
      rw [Getopt.size_cons] at hdrop
      cases arg with
      | nil => cases h
      | cons d text =>
        cases text with
        | nil => cases h
        | cons c text =>
          rw [List.length_cons, List.length_cons] at hdrop
          dsimp only [List.tail_cons] at h
          split_ifs at h
          · have hread := t.size_readShort c text rest
            rw [Option.some.inj h, Getopt.size_letters text] at hread
            dsimp only at hread
            omega
          · have hread := t.size_readLong text rest
            rw [Option.some.inj h] at hread
            dsimp only at hread
            omega

/-! ### An option with an argument -/

/-- How an option with an argument is written: by its letter or by a name, with the argument in the
    same element or in the next. -/
inductive Spelling where
  | short
  | shortJoined
  | long
  | longJoined
  deriving DecidableEq, Repr

/-- The elements that an option is written in. -/
def spell (t : OptionTable α) (c : α) (name arg : List α) : Spelling → List (List α)
  | .short => [[t.dash, c], arg]
  | .shortJoined => [t.dash :: c :: arg]
  | .long => [t.dash :: t.dash :: name, arg]
  | .longJoined => [t.dash :: t.dash :: (name ++ t.equals :: arg)]

/-- The letter and the name are those of an option that takes an argument. -/
structure Takes (t : OptionTable α) (c : α) (name : List α) : Prop where
  short : t.short.lookup c = some true
  long : t.ofName name = some (true, c)
  letter : c ≠ t.dash
  ne_nil : name ≠ []
  equals : t.equals ∉ name

/-- A dash and a letter are a short option. -/
theorem next_short {c : α} (h : c ≠ t.dash) (rest : List α) (args : List (List α)) :
    t.next { args := (t.dash :: c :: rest) :: args } = some (t.readShort c rest args) := by
  have hoption : t.isOperand (t.dash :: c :: rest) = false := by simp [isOperand]
  unfold next
  dsimp only
  rw [List.dropWhile_cons_of_neg (by rw [hoption]; exact Bool.false_ne_true)]
  exact if_pos h

/-- Two dashes and a text are a long option. -/
theorem next_long {text : List α} (h : text ≠ []) (args : List (List α)) :
    t.next { args := (t.dash :: t.dash :: text) :: args } = some (t.readLong text args) := by
  have hoption : t.isOperand (t.dash :: t.dash :: text) = false := by simp [isOperand]
  unfold next
  dsimp only
  rw [List.dropWhile_cons_of_neg (by rw [hoption]; exact Bool.false_ne_true)]
  show (if t.dash ≠ t.dash then _ else _) = _
  rw [if_neg (not_not.mpr rfl), if_neg h]

/-- **However an option is written**, it is read with its argument; a joined argument of a letter is
    not empty. -/
theorem next_spell {c : α} {name : List α} (h : t.Takes c name) (arg : List α)
    {spelling : Spelling} (hjoined : spelling = .shortJoined → arg ≠ []) (args : List (List α)) :
    t.next { args := t.spell c name arg spelling ++ args }
      = some ({ option := c, optarg := some arg }, { args }) := by
  cases spelling with
  | short =>
    show t.next { args := [t.dash, c] :: arg :: args } = _
    rw [next_short h.letter, readShort, h.short]
    rfl
  | shortJoined =>
    show t.next { args := (t.dash :: c :: arg) :: args } = _
    rw [next_short h.letter, readShort, h.short]
    exact congrArg some (if_neg (hjoined rfl))
  | long =>
    show t.next { args := (t.dash :: t.dash :: name) :: arg :: args } = _
    rw [next_long h.ne_nil, readLong, lineOf_of_not_mem h.equals, h.long]
    simp [h.equals, readNext]
  | longJoined =>
    show t.next { args := (t.dash :: t.dash :: (name ++ t.equals :: arg)) :: args } = _
    rw [next_long (by simp), readLong, lineOf_append_cons h.equals, h.long,
      afterLine_append_cons h.equals]
    simp

end OptionTable

/-! ### What a sequence of options sets -/

/-- **The last write stays**: of the steps, those with `p` write `f` to what `get` reads, and the
    others leave it. -/
theorem foldl_lastWrite {σ β : Type} {set : σ → α → σ} (get : σ → β) {p : α → Bool} {f : α → β}
    (hwrite : ∀ s a, p a = true → get (set s a) = f a)
    (hkeep : ∀ s a, p a = false → get (set s a) = get s) (l : List α) (s : σ) :
    get (l.foldl set s) = ((l.filter p).getLast?.map f).getD (get s) := by
  induction l using List.reverseRecOn with
  | nil => rfl
  | append_singleton l a ih =>
    rw [List.foldl_concat]
    cases ha : p a with
    | true => simp [hwrite _ a ha, ha]
    | false => simp [hkeep _ a ha, ha, ih]

end Lib
