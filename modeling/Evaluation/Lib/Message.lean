import Evaluation.Lib.Text

namespace Lib

/-!
# Messages of lines and a body

A message is a start line, fields, an empty line and a body.  Its lines end in two marks, a field is
a name and a value with two marks between them, and one of the fields may state how long the body
is; where none does, the body goes on to the end.

* `Format.text` — the text of a message;
* `Format.Cuts` — a text that is some messages, one behind the other;
* `Format.text_unique` — a text starts in one way with the lines of a message;
* `Format.Cuts.unique` — a text is cut into messages in one way.
-/

@[ext] structure Message (α : Type) where
  start : List α
  fields : List (List α × List α)
  body : List α
  deriving DecidableEq, Repr

/-- The marks, and what fields state about the length of the body. -/
structure Format (α : Type) where
  cr : α
  lf : α
  colon : α
  space : α
  stated : List (List α × List α) → Option ℕ

namespace Format

variable {α : Type} (F : Format α)

def line (l : List α) : List α := l ++ [F.cr, F.lf]

def fieldLine (f : List α × List α) : List α := F.line (f.1 ++ F.colon :: F.space :: f.2)

def text (m : Message α) : List α :=
  F.line m.start ++ m.fields.flatMap F.fieldLine ++ F.line [] ++ m.body

/-- A field that its line can carry. -/
structure Clean (f : List α × List α) : Prop where
  ne_nil : f.1 ≠ []
  name_colon : F.colon ∉ f.1
  name : F.cr ∉ f.1
  value : F.cr ∉ f.2

/-- A message whose lines end where they should. -/
structure Strict (m : Message α) : Prop where
  start : F.cr ∉ m.start
  fields : ∀ f ∈ m.fields, F.Clean f

/-- Messages, one behind the other.  Only the last one may leave the length of its body open. -/
inductive Cuts : List (Message α) → List α → Prop where
  | nil : Cuts [] []
  | sized {m : Message α} {ms : List (Message α)} {w : List α} (hm : F.Strict m)
    (hlength : F.stated m.fields = some m.body.length) (h : Cuts ms w) :
    Cuts (m :: ms) (F.text m ++ w)
  | last {m : Message α} (hm : F.Strict m) (hopen : F.stated m.fields = none) : Cuts [m] (F.text m)

variable {F} {m m' : Message α} {r r' : List α}

/-- A line is its text, CR and LF. -/
theorem line_append (l r : List α) : F.line l ++ r = l ++ F.cr :: F.lf :: r := by
  rw [line, List.append_assoc]
  rfl

/-- A message in front of something is its start line, its fields, an empty line and its body. -/
theorem text_append (m : Message α) (r : List α) :
    F.text m ++ r
      = F.line m.start ++ (m.fields.flatMap F.fieldLine ++ (F.line [] ++ (m.body ++ r))) := by
  simp only [text, List.append_assoc]

theorem text_ne_nil (m : Message α) : F.text m ≠ [] := by
  simp [text, line]

/-- Two texts that start with a piece without the mark, then the mark. -/
theorem piece_unique {mark : α} {a b : List α} (ha : mark ∉ a) (hb : mark ∉ b)
    (h : a ++ mark :: r = b ++ mark :: r') : a = b ∧ r = r' := by
  classical
  refine ⟨?_, ?_⟩
  · rw [← lineOf_append_cons ha r, h, lineOf_append_cons hb]
  · rw [← afterLine_append_cons ha r, h, afterLine_append_cons hb]

/-- A line is cut off in one way only. -/
theorem line_unique {a b : List α} (ha : F.cr ∉ a) (hb : F.cr ∉ b)
    (h : F.line a ++ r = F.line b ++ r') : a = b ∧ r = r' := by
  rw [line_append, line_append] at h
  obtain ⟨hab, hrest⟩ := piece_unique ha hb h
  exact ⟨hab, (List.cons.inj hrest).2⟩

/-- A clean field has no CR in its line. -/
theorem Clean.cr_not_mem {f : List α × List α} (hf : F.Clean f) (hcolon : F.cr ≠ F.colon)
    (hspace : F.cr ≠ F.space) : F.cr ∉ f.1 ++ F.colon :: F.space :: f.2 := by
  simp only [List.mem_append, List.mem_cons, not_or]
  exact ⟨hf.name, hcolon, hspace, hf.value⟩

/-- A clean field is read in one way only. -/
theorem field_unique {f f' : List α × List α} (hf : F.Clean f) (hf' : F.Clean f')
    (h : f.1 ++ F.colon :: F.space :: f.2 = f'.1 ++ F.colon :: F.space :: f'.2) : f = f' := by
  obtain ⟨hname, hvalue⟩ := piece_unique hf.name_colon hf'.name_colon h
  exact Prod.ext hname (List.cons.inj hvalue).2

/-- The first mark of a field line is not that of an empty line. -/
theorem fieldLine_ne_empty {f : List α × List α} (hf : F.Clean f) :
    F.fieldLine f ++ r ≠ F.line [] ++ r' := by
  obtain ⟨c, name, hname⟩ := List.exists_cons_of_ne_nil hf.ne_nil
  intro h
  rw [fieldLine, line_append, line_append, hname] at h
  have hcr : c = F.cr := (List.cons.inj h).1
  exact hf.name (by rw [hname, hcr]; exact List.mem_cons_self ..)

section

-- The end of a line is no mark between a name and a value.
variable (hcolon : F.cr ≠ F.colon) (hspace : F.cr ≠ F.space)

include hcolon hspace

/-- Clean fields and the empty line behind them are read in one way only. -/
theorem fields_unique {fs fs' : List (List α × List α)} (hfs : ∀ f ∈ fs, F.Clean f)
    (hfs' : ∀ f ∈ fs', F.Clean f)
    (h : fs.flatMap F.fieldLine ++ (F.line [] ++ r)
      = fs'.flatMap F.fieldLine ++ (F.line [] ++ r')) :
    fs = fs' ∧ r = r' := by
  induction fs generalizing fs' with
  | nil =>
    cases fs' with
    | nil => exact ⟨rfl, (line_unique (by simp) (by simp) h).2⟩
    | cons f' fs' =>
      rw [List.flatMap_cons, List.append_assoc] at h
      exact absurd h.symm (fieldLine_ne_empty (hfs' f' (by simp)))
  | cons f fs ih =>
    have hf := hfs f (by simp)
    rw [List.flatMap_cons, List.append_assoc] at h
    cases fs' with
    | nil => exact absurd h (fieldLine_ne_empty hf)
    | cons f' fs' =>
      have hf' := hfs' f' (by simp)
      rw [List.flatMap_cons, List.append_assoc] at h
      obtain ⟨hline, hrest⟩ := line_unique (hf.cr_not_mem hcolon hspace)
        (hf'.cr_not_mem hcolon hspace) h
      obtain ⟨rfl, hr⟩ := ih (fun f hmem => hfs f (by simp [hmem]))
        (fun f hmem => hfs' f (by simp [hmem])) hrest
      rw [field_unique hf hf' hline]
      exact ⟨rfl, hr⟩

/-- **The lines of a message** are found in one way. -/
theorem text_unique (hm : F.Strict m) (hm' : F.Strict m') (h : F.text m ++ r = F.text m' ++ r') :
    m.start = m'.start ∧ m.fields = m'.fields ∧ m.body ++ r = m'.body ++ r' := by
  rw [text_append, text_append] at h
  obtain ⟨hstart, hrest⟩ := line_unique hm.start hm'.start h
  obtain ⟨hfields, hbody⟩ := fields_unique hcolon hspace hm.fields hm'.fields hrest
  exact ⟨hstart, hfields, hbody⟩

/-- **A text** is cut into messages in one way. -/
theorem Cuts.unique {ms ms' : List (Message α)} {w : List α} (h : F.Cuts ms w)
    (h' : F.Cuts ms' w) : ms = ms' := by
  -- Induction on the one way: the other one starts with the same lines, which state the same.
  induction h generalizing ms' with
  | nil =>
    generalize hw : ([] : List α) = w at h'
    cases h' with
    | nil => rfl
    | @sized m _ w hm => exact absurd (List.append_eq_nil_iff.mp hw.symm).1 (text_ne_nil m)
    | @last m hm => exact absurd hw.symm (text_ne_nil m)
  | @sized m ms w hm hlength _ ih =>
    generalize hw : F.text m ++ w = w' at h'
    cases h' with
    | nil => exact absurd (List.append_eq_nil_iff.mp hw).1 (text_ne_nil m)
    | @sized m' ms' w' hm' hlength' hrest =>
      obtain ⟨hstart, hfields, hbody⟩ := text_unique hcolon hspace hm hm' hw
      rw [hfields, hlength'] at hlength
      obtain ⟨hbodies, rfl⟩ := List.append_inj hbody (Option.some.inj hlength).symm
      rw [Message.ext hstart hfields hbodies, ih hrest]
    | @last m' hm' hopen =>
      obtain ⟨-, hfields, -⟩ := text_unique hcolon hspace hm hm'
        (hw.trans (List.append_nil _).symm)
      rw [hfields, hopen] at hlength
      cases hlength
  | @last m hm hopen =>
    generalize hw : F.text m = w' at h'
    cases h' with
    | nil => exact absurd hw (text_ne_nil m)
    | @sized m' ms' w' hm' hlength hrest =>
      obtain ⟨-, hfields, -⟩ := text_unique hcolon hspace hm hm'
        ((List.append_nil _).trans hw)
      rw [hfields, hlength] at hopen
      cases hopen
    | @last m' hm' hopen' =>
      obtain ⟨hstart, hfields, hbody⟩ := text_unique hcolon hspace hm hm'
        ((List.append_nil _).trans (hw.trans (List.append_nil _).symm))
      rw [List.append_nil, List.append_nil] at hbody
      rw [Message.ext hstart hfields hbody]

end

end Format

end Lib
