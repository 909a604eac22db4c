import Evaluation.Cursor
import Evaluation.Parser

namespace Evaluation

open Lib SocketStream

/-!
# The messages that the parsers read, as functions of the text

`requestOf` and `responseOf` say what a text denotes, with no stream and no cursor: the first
line cut into words, the lines after it up to the first that ends the headers, and the body.

* `fields` — the header lines and what stands behind them;
* `bodyOf` — the body that is taken from there: nothing when only blanks are left.

The next module proves that `parseRequest` and `parseResponse` compute these functions.
-/

/-- The words of a line. -/
def tokens (line : Bytes) : List Bytes := words isspace line

/-- The first line, without its newline. -/
def firstLine (S : Bytes) : Bytes := lineOf newline S

/-- What stands behind the first newline. -/
def afterFirstLine (S : Bytes) : Bytes := afterLine newline S

/-- A header line cut at its first colon: the lower-cased name, and the value without its
    leading blanks. -/
def splitField (line : Bytes) : Option Field :=
  if colon ∈ line then
    some ⟨lowerName (lineOf colon line), (afterLine colon line).dropWhile isspace⟩
  else none

/-- The headers read from a text, added to `hs`, and what is left when the reading stops:
    where only blanks are left, behind an empty line, or behind a line with no colon. -/
def fields (hs : Headers) (T : Bytes) : Headers × Bytes :=
  if h : T.all isspace = true then (hs, T)
  else
    have : (afterFirstLine T).length < T.length :=
      length_afterLine_lt (by rintro rfl; exact h rfl)
    let line := popCR (firstLine T)
    if line = [] then (hs, afterFirstLine T)
    else match splitField line with
      | none => (hs, afterFirstLine T)
      | some f => fields (hs.insert f.1 f.2) (afterFirstLine T)
termination_by T.length

/-- The body taken from what is left. -/
def bodyOf (T : Bytes) : Bytes := if T.all isspace then [] else T

/-- The method, the resource and the version that a request line denotes. -/
def requestLineOf (line : Bytes) : Option (Method × Bytes × Bytes) :=
  match tokens line with
  | [word, resource, version] =>
    if Method.stringToMethod word = .UNKNOWN then none
    else some (Method.stringToMethod word, resource, version)
  | _ => none

/-- The request that a text denotes. -/
def requestOf (S : Bytes) : Option HTTPRequest :=
  (requestLineOf (firstLine S)).map fun (method, resource, version) =>
    let (headers, rest) := fields ∅ (afterFirstLine S)
    ⟨method, resource, version, headers, bodyOf rest⟩

/-- The first word of a line. -/
def firstWord (line : Bytes) : Bytes := (line.dropWhile isspace).takeWhile fun c => !isspace c

/-- What stands behind the first word. -/
def afterFirstWord (line : Bytes) : Bytes :=
  (line.dropWhile isspace).dropWhile fun c => !isspace c

/-- The version, the code and the status that a status line denotes. -/
def statusOf (line : Bytes) : Option (Bytes × UInt32 × Bytes) :=
  let version := firstWord line
  let rest := afterFirstWord line
  let status := popCR ((afterFirstWord rest).dropWhile isspace)
  match stoul (firstWord rest) with
  | .error _ => none
  | .ok n =>
    if version = [] ∨ UInt32.ofNat n = 0 ∨ status = [] then none
    else some (version, UInt32.ofNat n, status)

/-- What the status line of a text denotes; a newline must end it. -/
def statusLineOf (S : Bytes) : Option (Bytes × UInt32 × Bytes) :=
  if newline ∈ S then statusOf (firstLine S) else none

/-- The response that a text denotes. -/
def responseOf (S : Bytes) : Option HTTPResponse :=
  (statusLineOf S).map fun (version, code, status) =>
    let (headers, rest) := fields ∅ (afterFirstLine S)
    ⟨version, code, status, headers, bodyOf rest⟩

/-! ### Words -/

/-- A line has no words if and only if it is blank. -/
theorem tokens_eq_nil_iff {line : Bytes} : tokens line = [] ↔ line.all isspace = true := by
  rw [tokens, words_eq_nil_iff, List.dropWhile_eq_nil_iff, List.all_eq_true]

/-- A line with a word in it: that word, and those of what stands behind it. -/
theorem tokens_step {line : Bytes} (h : tokens line ≠ []) :
    tokens line = firstWord line :: tokens (afterFirstWord line) :=
  words_step fun hnil => h (words_eq_nil_iff.mpr hnil)

/-- A line with three words or more. -/
theorem tokens_three {line : Bytes} (h : 3 ≤ (tokens line).length) :
    tokens line = firstWord line :: firstWord (afterFirstWord line) ::
      firstWord (afterFirstWord (afterFirstWord line)) ::
        tokens (afterFirstWord (afterFirstWord (afterFirstWord line))) := by
  have hne : ∀ l : Bytes, 1 ≤ (tokens l).length → tokens l ≠ [] := by
    intro l hl hnil
    rw [hnil] at hl
    exact absurd hl (by simp)
  have h1 := tokens_step (hne line (by omega))
  rw [h1, List.length_cons] at h
  have h2 := tokens_step (hne (afterFirstWord line) (by omega))
  rw [h2, List.length_cons] at h
  have h3 := tokens_step (hne (afterFirstWord (afterFirstWord line)) (by omega))
  rw [h1, h2, h3]

/-- Behind the first word stand the other words. -/
theorem tokens_afterFirstWord (line : Bytes) :
    tokens (afterFirstWord line) = (tokens line).tail := by
  by_cases h : tokens line = []
  · rw [afterFirstWord, words_eq_nil_iff.mp h, h]
    rfl
  · rw [tokens_step h, List.tail_cons]

/-! ### Steps of `fields` -/

/-- Blanks end the headers, and are left. -/
theorem fields_blank {T : Bytes} (h : T.all isspace = true) (hs : Headers) :
    fields hs T = (hs, T) := by
  rw [fields, dif_pos h]

/-- A line without a colon ends them, and is passed over. -/
theorem fields_noColon {T : Bytes} (h : T.all isspace = false)
    (hline : splitField (popCR (firstLine T)) = none) (hs : Headers) :
    fields hs T = (hs, afterFirstLine T) := by
  rw [fields, dif_neg (by rw [h]; exact Bool.false_ne_true)]
  simp only [hline, ite_self]

/-- A line with a colon is a header, and the loop goes on behind it. -/
theorem fields_field {T : Bytes} {f : Field} (h : T.all isspace = false)
    (hline : splitField (popCR (firstLine T)) = some f) (hs : Headers) :
    fields hs T = fields (hs.insert f.1 f.2) (afterFirstLine T) := by
  have hne : popCR (firstLine T) ≠ [] := by
    intro hnil
    rw [hnil] at hline
    cases hline
  rw [fields, dif_neg (by rw [h]; exact Bool.false_ne_true)]
  simp only [hline, hne, if_false]

/-- **Induction along the headers**: only blanks are left, the line is empty or has no colon, or
    the line adds a field. -/
theorem fields_induction {motive : Headers → Bytes → Prop}
    (blank : ∀ hs T, T.all isspace = true → motive hs T)
    (stop : ∀ hs T, T.all isspace = false → splitField (popCR (firstLine T)) = none → motive hs T)
    (step : ∀ hs T f, T.all isspace = false → splitField (popCR (firstLine T)) = some f →
      motive (hs.insert f.1 f.2) (afterFirstLine T) → motive hs T) (hs : Headers) (T : Bytes) :
    motive hs T := by
  induction hn : T.length using Nat.strong_induction_on generalizing hs T with
  | _ n ih =>
    cases hblank : T.all isspace with
    | true => exact blank hs T hblank
    | false =>
      cases hsplit : splitField (popCR (firstLine T)) with
      | none => exact stop hs T hblank hsplit
      | some f =>
        have hne : T ≠ [] := by
          rintro rfl
          cases hblank
        exact step hs T f hblank hsplit
          (ih _ (by rw [← hn]; exact length_afterLine_lt hne) _ _ rfl)

/-! ### Lines -/

@[simp] theorem popCR_nil : popCR [] = [] := rfl

/-- Either a line ends with a CR, which `popCR` takes away, or it stays as it is. -/
theorem popCR_cases (line : Bytes) : popCR line = line ∨ line = popCR line ++ [carriageReturn] := by
  unfold popCR
  by_cases h : line.getLast? = some carriageReturn
  · rw [if_pos h]
    refine .inr ?_
    obtain ⟨ys, rfl⟩ := List.getLast?_eq_some_iff.mp h
    rw [List.dropLast_concat]
  · rw [if_neg h]
    exact .inl rfl

/-- The CR at the end of a line is taken off. -/
theorem popCR_append_cr (line : Bytes) : popCR (line ++ [carriageReturn]) = line := by
  rw [popCR, if_pos (by simp), List.dropLast_concat]

/-- A CR is a blank, so taking it away changes nothing about blanks. -/
theorem all_popCR (line : Bytes) : (popCR line).all isspace = line.all isspace := by
  rcases popCR_cases line with h | h
  · rw [h]
  · conv_rhs => rw [h]
    simp

/-- Taking off a CR adds no byte. -/
theorem mem_of_mem_popCR {line : Bytes} {c : UInt8} (h : c ∈ popCR line) : c ∈ line := by
  rcases popCR_cases line with heq | heq
  · rwa [heq] at h
  · rw [heq]
    exact List.mem_append_left _ h

/-- Taking off a CR makes a line no longer. -/
theorem length_popCR_le (line : Bytes) : (popCR line).length ≤ line.length := by
  rcases popCR_cases line with h | h
  · rw [h]
  · have hlen := congrArg List.length h
    rw [List.length_append] at hlen
    omega

/-- A line that is read has no newline in it. -/
theorem newline_not_mem_popCR_firstLine (T : Bytes) : newline ∉ popCR (firstLine T) :=
  fun h => not_mem_lineOf newline T (mem_of_mem_popCR h)

/-- The name of a header has no colon in it, and is in lower case. -/
theorem splitField_some {line : Bytes} {f : Field} (h : splitField line = some f) :
    colon ∈ line ∧ f.1 = lowerName (lineOf colon line) ∧
      f.2 = (afterLine colon line).dropWhile isspace := by
  unfold splitField at h
  split at h
  · cases h
    exact ⟨‹_›, rfl, rfl⟩
  · cases h

/-- A line is no header if and only if it has no colon. -/
theorem splitField_eq_none {line : Bytes} : splitField line = none ↔ colon ∉ line := by
  unfold splitField
  by_cases h : colon ∈ line <;> simp [h]

/-- The first line is no longer than the text. -/
theorem length_firstLine_le (S : Bytes) : (firstLine S).length ≤ S.length :=
  (List.takeWhile_prefix _).length_le

/-- A line that a newline ends is shorter than the text. -/
theorem length_firstLine_lt {S : Bytes} (h : newline ∈ S) : (firstLine S).length < S.length :=
  length_lineOf_lt h

/-! ### `find` and `substr` on a line -/

/-- `find` gives `npos` for a byte that does not occur. -/
theorem find_of_not_mem {str : Bytes} {c : UInt8} (h : c ∉ str) : find str c = npos := by
  rw [find, findIdx?_of_not_mem h, Option.getD_none]

/-- `find` gives the length of what stands in front of the byte. -/
theorem find_of_mem {str : Bytes} {c : UInt8} (h : c ∈ str) :
    find str c = (lineOf c str).length := by
  rw [find, findIdx?_of_mem h, Option.getD_some]

/-- Where the first newline of a prefix of the text is found. -/
theorem find_take {S : Bytes} {p : ℕ} (hp : (firstLine S).length < p) (hnl : newline ∈ S) :
    find (S.take p) newline = (firstLine S).length := by
  obtain ⟨a, b, rfl, ha⟩ := List.eq_append_cons_of_mem hnl
  rw [firstLine, lineOf_append_cons ha] at hp ⊢
  obtain ⟨n, rfl⟩ : ∃ n, p = a.length + (n + 1) := ⟨p - a.length - 1, by omega⟩
  rw [List.take_length_add_append, List.take_succ_cons, find_of_mem (by simp),
    lineOf_append_cons ha]

/-- Within the first line no newline is found. -/
theorem find_take_of_le {S : Bytes} {p : ℕ} (hp : p ≤ (firstLine S).length) :
    find (S.take p) newline = npos := by
  refine find_of_not_mem fun h => ?_
  have hpre : S.take p <+: firstLine S :=
    List.prefix_of_prefix_length_le (List.take_prefix p S) (List.takeWhile_prefix _)
      (by rw [List.length_take]; omega)
  exact not_mem_lineOf newline S (hpre.subset h)

end Evaluation
