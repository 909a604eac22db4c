import Evaluation.CxxLib

namespace Evaluation

/-!
# JSON values and the functions of `nlohmann::json` that the program calls

The library is no part of the repository.  Its values are `Json`; its functions are the members
of `Nlohmann`, a parameter of everything that calls them, and `Nlohmann.Documented` is what the
library's documentation promises of them.

* `isUtf8` — well-formed UTF-8, one byte at a time;
* `isUtf8_ascii_append`, `isUtf8_append_ascii` — text put before or behind a text;
* `Nlohmann.Documented` — the promises, and `Nlohmann.Documented.utf8_of_atKey` and its like, what
  they say of valid UTF-8;
* `Nlohmann.plain` — a library that keeps the promises.
-/

/-! ### UTF-8 -/

/-- The ranges of the bytes that must follow a first byte, none for an ASCII one. -/
def utf8Followers (c : UInt8) : Option (List (UInt8 × UInt8)) :=
  if c < 0x80 then some []
  else if c < 0xC2 then none
  else if c < 0xE0 then some [(0x80, 0xBF)]
  else if c = 0xE0 then some [(0xA0, 0xBF), (0x80, 0xBF)]
  else if c = 0xED then some [(0x80, 0x9F), (0x80, 0xBF)]
  else if c < 0xF0 then some [(0x80, 0xBF), (0x80, 0xBF)]
  else if c = 0xF0 then some [(0x90, 0xBF), (0x80, 0xBF), (0x80, 0xBF)]
  else if c < 0xF4 then some [(0x80, 0xBF), (0x80, 0xBF), (0x80, 0xBF)]
  else if c = 0xF4 then some [(0x80, 0x8F), (0x80, 0xBF), (0x80, 0xBF)]
  else none

/-- One byte of the decoder, whose state is the ranges of the bytes that must come next. -/
def utf8Step (pending : List (UInt8 × UInt8)) (c : UInt8) : Option (List (UInt8 × UInt8)) :=
  match pending with
  | [] => utf8Followers c
  | (lo, hi) :: pending => if lo ≤ c ∧ c ≤ hi then some pending else none

/-- The state of the decoder behind a text. -/
def utf8Scan (pending : List (UInt8 × UInt8)) (s : Bytes) : Option (List (UInt8 × UInt8)) :=
  s.foldlM utf8Step pending

/-- The text is valid UTF-8. -/
def isUtf8 (s : Bytes) : Bool := utf8Scan [] s == some []

/-- The scan of a text goes on where that of its beginning has ended. -/
theorem utf8Scan_append (pending : List (UInt8 × UInt8)) (s t : Bytes) :
    utf8Scan pending (s ++ t) = (utf8Scan pending s).bind fun p => utf8Scan p t :=
  List.foldlM_append

/-- ASCII is valid UTF-8. -/
theorem utf8Scan_ascii {t : Bytes} (ht : ∀ c ∈ t, c < 0x80) : utf8Scan [] t = some [] := by
  induction t with
  | nil => rfl
  | cons c t ih =>
    have hc : utf8Step [] c = some [] := if_pos (ht c (by simp))
    rw [utf8Scan, List.foldlM_cons, hc]
    exact ih fun b hb => ht b (List.mem_cons_of_mem _ hb)

/-- **ASCII text in front** changes nothing. -/
theorem isUtf8_ascii_append {t : Bytes} (ht : ∀ c ∈ t, c < 0x80) (s : Bytes) :
    isUtf8 (t ++ s) = isUtf8 s := by
  rw [isUtf8, utf8Scan_append, utf8Scan_ascii ht]
  rfl

/-- No character goes on with an ASCII byte. -/
theorem utf8Followers_high :
    ∀ c, ((utf8Followers c).getD []).all (fun r => decide (0x80 ≤ r.1)) = true :=
  byte_forall (by decide +kernel)

/-- The ranges in the state are ranges of bytes that are not ASCII. -/
theorem utf8Scan_pending {pending pending' : List (UInt8 × UInt8)} {s : Bytes}
    (h : utf8Scan pending s = some pending') (hp : ∀ r ∈ pending, 0x80 ≤ r.1) :
    ∀ r ∈ pending', 0x80 ≤ r.1 := by
  induction s generalizing pending with
  | nil =>
    cases h
    exact hp
  | cons c s ih =>
    rw [utf8Scan, List.foldlM_cons] at h
    obtain ⟨p, hstep, hrest⟩ := Option.bind_eq_some_iff.mp h
    refine ih hrest ?_
    -- The byte begins a character, whose followers are high ones, or is the next of those awaited.
    cases pending with
    | nil =>
      have hhigh := utf8Followers_high c
      rw [show utf8Followers c = some p from hstep] at hhigh
      simpa using hhigh
    | cons r pending =>
      simp only [utf8Step, Option.ite_none_right_eq_some, Option.some.injEq] at hstep
      rw [← hstep.2]
      exact fun r hr => hp r (List.mem_cons_of_mem _ hr)

/-- **ASCII text behind** changes nothing either: no character goes on with an ASCII byte. -/
theorem isUtf8_append_ascii {t : Bytes} (ht : ∀ c ∈ t, c < 0x80) (s : Bytes) :
    isUtf8 (s ++ t) = isUtf8 s := by
  rw [isUtf8, isUtf8, utf8Scan_append]
  cases hs : utf8Scan [] s with
  | none => rfl
  | some pending =>
    rw [Option.bind_some]
    -- After whole characters the scan starts afresh; within one, a byte below 0x80 is an error both
    -- ways.
    cases pending with
    | nil => rw [utf8Scan_ascii ht]
    | cons r pending =>
      cases t with
      | nil => rfl
      | cons c t =>
        have hr := utf8Scan_pending hs (by simp) r (by simp)
        have hc := ht c (by simp)
        have hstep : utf8Step (r :: pending) c = none := by
          refine if_neg fun h => ?_
          exact UInt8.not_lt.mpr (UInt8.le_trans hr h.1) hc
        rw [utf8Scan, List.foldlM_cons, hstep]
        simp

/-! ### Values -/

/-- A `nlohmann::json`.  The members of an object stand in the order of their keys; a float is
    given by its bits. -/
inductive Json where
  | null
  | boolean (b : Bool)
  | integer (n : ℤ)
  | unsigned (n : ℕ)
  | float (bits : UInt64)
  | string (s : Bytes)
  | array (elems : List Json)
  | object (members : List (Bytes × Json))
  deriving Repr

namespace Json

mutual

/-- All strings and keys in the value are valid UTF-8. -/
def utf8 : Json → Bool
  | .string s => isUtf8 s
  | .array elems => utf8Elems elems
  | .object members => utf8Members members
  | _ => true

def utf8Elems : List Json → Bool
  | [] => true
  | j :: js => j.utf8 && utf8Elems js

def utf8Members : List (Bytes × Json) → Bool
  | [] => true
  | (key, j) :: ms => isUtf8 key && j.utf8 && utf8Members ms

end

/-- Each element of a valid list is valid. -/
theorem utf8Elems_mem {elems : List Json} (h : utf8Elems elems = true) {j : Json}
    (hj : j ∈ elems) : j.utf8 = true := by
  induction elems with
  | nil => cases hj
  | cons e es ih =>
    rw [utf8Elems, Bool.and_eq_true] at h
    rcases List.mem_cons.mp hj with rfl | hmem
    · exact h.1
    · exact ih h.2 hmem

/-- Each member of a valid object is valid. -/
theorem utf8Members_lookup {members : List (Bytes × Json)} (h : utf8Members members = true)
    {key : Bytes} {j : Json} (hj : members.lookup key = some j) : j.utf8 = true := by
  induction members with
  | nil => cases hj
  | cons m ms ih =>
    obtain ⟨k, v⟩ := m
    rw [utf8Members, Bool.and_eq_true, Bool.and_eq_true] at h
    rw [List.lookup_cons] at hj
    split at hj
    · cases hj
      exact h.1.2
    · exact ih h.2 hj

end Json

/-! ### The library -/

/-- The functions of the library: `dump` with an indentation or on one line, `parse`, the two
    forms of `at`, and the conversions to `unsigned int` and to `std::string`. -/
structure Nlohmann where
  dump : Json → Option ℕ → Except Exn Bytes
  parse : Bytes → Except Exn Json
  atKey : Json → Bytes → Except Exn Json
  atIndex : Json → ℕ → Except Exn Json
  toUnsigned : Json → Except Exn UInt32
  toBytes : Json → Except Exn Bytes

namespace Nlohmann

/-- **What the documentation promises.**  `dump` throws on a string that is not valid UTF-8
    and on nothing else, and its text starts with a byte other than a blank; `parse` accepts
    only valid UTF-8; `at` gives the member of an object with that key, or the element of an
    array at that index, and throws otherwise; the conversion of an integer to `unsigned int` is
    a plain cast; the one to `std::string` throws on everything but a string. -/
structure Documented (json : Nlohmann) : Prop where
  dump_ok : ∀ j indent, j.utf8 = true → ∃ text, json.dump j indent = .ok text
  dump_throws : ∀ j indent, j.utf8 = false → json.dump j indent = .error .typeError
  dump_head : ∀ j indent text, json.dump j indent = .ok text →
    ∃ c ∈ text.head?, isspace c = false
  parse_utf8 : ∀ text j, json.parse text = .ok j → j.utf8 = true
  atKey_iff : ∀ j key v, json.atKey j key = .ok v ↔
    ∃ members, j = .object members ∧ members.lookup key = some v
  atIndex_iff : ∀ j i v, json.atIndex j i = .ok v ↔ ∃ elems, j = .array elems ∧ elems[i]? = some v
  toUnsigned_integer : ∀ n, json.toUnsigned (.integer n) = .ok (UInt32.ofInt n)
  toUnsigned_unsigned : ∀ n, json.toUnsigned (.unsigned n) = .ok (UInt32.ofNat n)
  toBytes_iff : ∀ j s, json.toBytes j = .ok s ↔ j = .string s

namespace Documented

variable {json : Nlohmann} {j v : Json}

/-- What is taken out of an object is as valid as the object. -/
theorem utf8_of_atKey (hdoc : json.Documented) {key : Bytes} (hj : j.utf8 = true)
    (h : json.atKey j key = .ok v) : v.utf8 = true := by
  obtain ⟨members, rfl, hlookup⟩ := (hdoc.atKey_iff ..).mp h
  rw [Json.utf8] at hj
  exact Json.utf8Members_lookup hj hlookup

/-- So is what is taken out of an array. -/
theorem utf8_of_atIndex (hdoc : json.Documented) {i : ℕ} (hj : j.utf8 = true)
    (h : json.atIndex j i = .ok v) : v.utf8 = true := by
  obtain ⟨elems, rfl, hget⟩ := (hdoc.atIndex_iff ..).mp h
  rw [Json.utf8] at hj
  exact Json.utf8Elems_mem hj (List.mem_of_getElem? hget)

/-- And so is a string. -/
theorem isUtf8_of_toBytes (hdoc : json.Documented) {s : Bytes} (hj : j.utf8 = true)
    (h : json.toBytes j = .ok s) : isUtf8 s = true := by
  obtain rfl := (hdoc.toBytes_iff ..).mp h
  rw [Json.utf8] at hj
  exact hj

end Documented

end Nlohmann

/-! ### A plain library -/

/-- A byte inside a JSON string. -/
def escape (c : UInt8) : Bytes :=
  if c = 34 then bytes "\\\""
  else if c = 92 then bytes "\\\\"
  else if c = 8 then bytes "\\b"
  else if c = 9 then bytes "\\t"
  else if c = 10 then bytes "\\n"
  else if c = 12 then bytes "\\f"
  else if c = 13 then bytes "\\r"
  else if c < 32 then
    bytes "\\u00" ++ [if c < 16 then 48 else 49, if c % 16 < 10 then 48 + c % 16 else 87 + c % 16]
  else [c]

def quote (s : Bytes) : Bytes := bytes "\"" ++ s.flatMap escape ++ bytes "\""

/-- The line break before an element at the given depth. -/
def lineBreak (indent : Option ℕ) (depth : ℕ) : Bytes :=
  match indent with
  | none => []
  | some n => newline :: List.replicate (n * depth) space

namespace Json

mutual

/-- The text of a value with no floats (they all come out as `0.0`). -/
def render (indent : Option ℕ) (depth : ℕ) : Json → Bytes
  | .null => bytes "null"
  | .boolean b => bytes (if b then "true" else "false")
  | .integer n => (if n < 0 then bytes "-" else []) ++ toDecimal n.natAbs
  | .unsigned n => toDecimal n
  | .float _ => bytes "0.0"
  | .string s => quote s
  | .array [] => bytes "[]"
  | .array (j :: js) =>
    bytes "[" ++ lineBreak indent (depth + 1) ++ j.render indent (depth + 1)
      ++ renderElems indent (depth + 1) js ++ lineBreak indent depth ++ bytes "]"
  | .object [] => bytes "\x7b\x7d"
  | .object ((key, j) :: ms) =>
    bytes "\x7b" ++ lineBreak indent (depth + 1) ++ quote key
      ++ bytes (if indent.isSome then ": " else ":") ++ j.render indent (depth + 1)
      ++ renderMembers indent (depth + 1) ms ++ lineBreak indent depth ++ bytes "\x7d"

def renderElems (indent : Option ℕ) (depth : ℕ) : List Json → Bytes
  | [] => []
  | j :: js =>
    bytes "," ++ lineBreak indent depth ++ j.render indent depth ++ renderElems indent depth js

def renderMembers (indent : Option ℕ) (depth : ℕ) : List (Bytes × Json) → Bytes
  | [] => []
  | (key, j) :: ms =>
    bytes "," ++ lineBreak indent depth ++ quote key
      ++ bytes (if indent.isSome then ": " else ":") ++ j.render indent depth
      ++ renderMembers indent depth ms

end

end Json

/-- A number starts with a visible byte. -/
theorem toDecimal_head (n : ℕ) : ∃ c ∈ (toDecimal n).head?, isspace c = false := by
  obtain ⟨c, cs, hcs⟩ := List.exists_cons_of_ne_nil (toDecimal_ne_nil n)
  refine ⟨c, by rw [hcs]; rfl, isspace_eq_false_of_isdigit c ?_⟩
  exact isdigit_of_mem_toDecimal (n := n) (by rw [hcs]; exact List.mem_cons_self ..)

/-- So does every text that is dumped. -/
theorem Json.render_head (j : Json) (indent : Option ℕ) :
    ∃ c ∈ (j.render indent 0).head?, isspace c = false := by
  -- The first byte is that of a word, a digit, a sign or a bracket.
  cases j with
  | null => exact ⟨110, by rw [render]; rfl, rfl⟩
  | boolean b => cases b <;> exact ⟨_, by rw [render]; rfl, rfl⟩
  | integer n =>
    rw [render]
    split
    · exact ⟨45, rfl, rfl⟩
    · rw [List.nil_append]
      exact toDecimal_head _
  | unsigned n =>
    rw [render]
    exact toDecimal_head _
  | float bits => exact ⟨48, by rw [render]; rfl, rfl⟩
  | string s => exact ⟨34, by rw [render]; rfl, rfl⟩
  | array elems => cases elems <;> exact ⟨91, by rw [render]; rfl, rfl⟩
  | object members => cases members <;> exact ⟨123, by rw [render]; rfl, rfl⟩

namespace Json

/-- `j.at(key)`. -/
def atKey (j : Json) (key : Bytes) : Except Exn Json :=
  match j with
  | .object members => match members.lookup key with
    | some v => .ok v
    | none => .error .outOfRange
  | _ => .error .typeError

/-- `j.at(i)`. -/
def atIndex (j : Json) (i : ℕ) : Except Exn Json :=
  match j with
  | .array elems => match elems[i]? with
    | some v => .ok v
    | none => .error .outOfRange
  | _ => .error .typeError

/-- The conversion to `unsigned int`, of a value that is no float. -/
def toUnsigned : Json → Except Exn UInt32
  | .boolean b => .ok (if b then 1 else 0)
  | .integer n => .ok (UInt32.ofInt n)
  | .unsigned n => .ok (UInt32.ofNat n)
  | _ => .error .typeError

/-- The conversion to `std::string`. -/
def toBytes : Json → Except Exn Bytes
  | .string s => .ok s
  | _ => .error .typeError

/-- `at(key)` gives the member of that name, and throws where there is none. -/
theorem atKey_iff (j : Json) (key : Bytes) (v : Json) :
    j.atKey key = .ok v ↔ ∃ members, j = .object members ∧ members.lookup key = some v := by
  cases j with
  | object members =>
    unfold atKey
    cases hlookup : members.lookup key <;> simp [hlookup]
  | _ => simp [atKey]

/-- `at(i)` gives the element at that place, and throws where there is none. -/
theorem atIndex_iff (j : Json) (i : ℕ) (v : Json) :
    j.atIndex i = .ok v ↔ ∃ elems, j = .array elems ∧ elems[i]? = some v := by
  cases j with
  | array elems =>
    unfold atIndex
    cases hget : elems[i]? <;> simp [hget]
  | _ => simp [atIndex]

/-- The conversion to a string gives the string, and throws for everything else. -/
theorem toBytes_iff (j : Json) (s : Bytes) : j.toBytes = .ok s ↔ j = .string s := by
  cases j <;> simp [toBytes]

end Json

/-- The library with these functions and a parser that accepts nothing. -/
def Nlohmann.plain : Nlohmann where
  dump j indent := if j.utf8 then .ok (j.render indent 0) else .error .typeError
  parse _ := .error .parseError
  atKey := Json.atKey
  atIndex := Json.atIndex
  toUnsigned := Json.toUnsigned
  toBytes := Json.toBytes

/-- The plain serializer and its parser behave as documented. -/
theorem Nlohmann.plain_documented : Nlohmann.plain.Documented where
  dump_ok j indent hj := ⟨j.render indent 0, if_pos hj⟩
  dump_throws j indent hj := if_neg (by rw [hj]; exact Bool.false_ne_true)
  dump_head j indent text h := by
    unfold plain at h
    simp only at h
    split at h
    · cases h
      exact Json.render_head j indent
    · cases h
  parse_utf8 text j h := by cases h
  atKey_iff := Json.atKey_iff
  atIndex_iff := Json.atIndex_iff
  toUnsigned_integer _ := rfl
  toUnsigned_unsigned _ := rfl
  toBytes_iff := Json.toBytes_iff

example : Nlohmann.plain.dump (.object [(bytes "a", .array [.unsigned 10, .string [10]])]) none
    = .ok (bytes "\x7b\"a\":[10,\"\\n\"]\x7d") := by decide +kernel

end Evaluation
