import Mathlib.Data.Nat.Digits.Lemmas
import Mathlib.Tactic.Ring

namespace Evaluation

/-!
# The C and C++ library functions the program uses

Strings are lists of bytes.  `isspace` and `tolower` are those of the C locale; `stoul` is
`std::stoul` in base 10 (`strtoul` with its blanks, sign and trailing text, and the two
exceptions), and `stoi` likewise; `toString` of a number is its decimal text.  `find` returns
`npos`, a value of the 64-bit `size_t`, when it finds nothing.
-/

/-- A `std::string`. -/
abbrev Bytes := List UInt8

/-- The bytes of an ASCII literal. -/
def bytes (s : String) : Bytes := s.toList.map fun c => UInt8.ofNat c.toNat

/-- `'\n'`. -/
def newline : UInt8 := 10
/-- `'\r'`. -/
def carriageReturn : UInt8 := 13
/-- `':'`. -/
def colon : UInt8 := 58
/-- `' '`. -/
def space : UInt8 := 32

/-- `isspace` in the C locale: blank, `\t`, `\n`, `\v`, `\f`, `\r`. -/
def isspace (c : UInt8) : Bool := c == 32 || (9 ≤ c && c ≤ 13)

/-- `tolower` in the C locale. -/
def tolower (c : UInt8) : UInt8 := if 65 ≤ c && c ≤ 90 then c + 32 else c

/-- `isdigit`. -/
def isdigit (c : UInt8) : Bool := 48 ≤ c && c ≤ 57

/-- `static_cast<size_t>(-1)`, what `find` returns when it finds nothing. -/
def npos : ℕ := 2 ^ 64 - 1

/-- `str.find(c)`. -/
def find (str : Bytes) (c : UInt8) : ℕ := (str.findIdx? (· == c)).getD npos

/-- `a - b` on `size_t`. -/
def sizeSub (a b : ℕ) : ℕ := (a + 2 ^ 64 - b) % 2 ^ 64

/-- The exceptions that the library functions and `substr` throw. -/
inductive Exn where
  | outOfRange
  | invalidArgument
  | typeError
  | parseError
  deriving DecidableEq, Repr

/-- Two steps of which neither throws. -/
theorem ok_of_bind_ok {α β : Type} {x : Except Exn α} {f : α → Except Exn β} {b : β}
    (h : (x >>= f) = .ok b) : ∃ a, x = .ok a ∧ f a = .ok b := by
  cases x with
  | error e => cases h
  | ok a => exact ⟨a, rfl, h⟩

/-- `str.substr(pos, n)`: throws when `pos` is past the end. -/
def substr (str : Bytes) (pos n : ℕ) : Except Exn Bytes :=
  if pos ≤ str.length then .ok ((str.drop pos).take n) else .error .outOfRange

/-! ### Case folding and blanks -/

@[simp] theorem isspace_newline : isspace newline = true := rfl
@[simp] theorem isspace_carriageReturn : isspace carriageReturn = true := rfl
@[simp] theorem isspace_space : isspace space = true := rfl
@[simp] theorem isspace_colon : isspace colon = false := rfl

/-- A byte that is no blank is no line end. -/
theorem ne_newline_of_isspace {c : UInt8} (h : isspace c = false) : c ≠ newline := by
  rintro rfl
  cases h

/-- A property of bytes is checked on the 256 of them. -/
theorem byte_forall {p : UInt8 → Prop} (h : ∀ n : Fin 256, p (UInt8.ofNat n)) :
    ∀ c, p c := by
  intro c
  have hc := h ⟨c.toNat, c.toNat_lt⟩
  rwa [UInt8.ofNat_toNat] at hc

/-- Lowering twice is lowering once. -/
theorem tolower_tolower : ∀ c, tolower (tolower c) = tolower c :=
  byte_forall (by decide +kernel)

/-- Lower-casing neither makes nor removes a byte that is no letter. -/
theorem tolower_eq_colon_iff : ∀ c, tolower c = colon ↔ c = colon :=
  byte_forall (by decide +kernel)

/-- Nothing else is lowered to a newline. -/
theorem tolower_eq_newline_iff : ∀ c, tolower c = newline ↔ c = newline :=
  byte_forall (by decide +kernel)

/-! ### Decimal numbers -/

/-- The number that a run of decimal digits denotes. -/
def decimal (ds : Bytes) : ℕ := ds.foldl (fun n c => 10 * n + (c.toNat - 48)) 0

/-- `std::to_string` of an unsigned number. -/
def toDecimal (n : ℕ) : Bytes :=
  if n = 0 then [48] else (Nat.digits 10 n).reverse.map fun d => UInt8.ofNat (48 + d)

/-- The sign that a number may start with: whether it is a minus, and what follows it. -/
def splitSign : Bytes → Bool × Bytes
  | 45 :: rest => (true, rest)
  | 43 :: rest => (false, rest)
  | rest => (false, rest)

/-- `std::stoul(str)`: blanks, a sign, the longest run of digits; what follows is ignored.
    No digit is `invalid_argument`, a number past 64 bits `out_of_range`; a minus negates
    modulo 2⁶⁴. -/
def stoul (str : Bytes) : Except Exn ℕ :=
  let (negative, rest) := splitSign (str.dropWhile isspace)
  let digits := rest.takeWhile isdigit
  if digits = [] then .error .invalidArgument
  else if 2 ^ 64 ≤ decimal digits then .error .outOfRange
  else .ok (if negative then (2 ^ 64 - decimal digits) % 2 ^ 64 else decimal digits)

/-- The number at the start of a text, behind blanks and a sign. -/
def leadingNumber (str : Bytes) : Option ℤ :=
  let (negative, rest) := splitSign (str.dropWhile isspace)
  let digits := rest.takeWhile isdigit
  if digits = [] then none
  else some (if negative then -(decimal digits : ℤ) else decimal digits)

/-- `std::stoi(str)`: what follows the number is ignored.  No number is `invalid_argument`, one that
    does not fit an `int` is `out_of_range`. -/
def stoi (str : Bytes) : Except Exn ℤ :=
  match leadingNumber str with
  | none => .error .invalidArgument
  | some n => if -2 ^ 31 ≤ n ∧ n < 2 ^ 31 then .ok n else .error .outOfRange

/-- `std::to_string` of an `int`. -/
def toDecimalInt (n : ℤ) : Bytes := (if n < 0 then [45] else []) ++ toDecimal n.natAbs

/-- A digit more at the end. -/
theorem decimal_append (ds : Bytes) (c : UInt8) :
    decimal (ds ++ [c]) = 10 * decimal ds + (c.toNat - 48) := by
  simp only [decimal, List.foldl_append, List.foldl_cons, List.foldl_nil]

/-- Reading the digits of a number, least significant last, gives it back. -/
private theorem decimal_reverse_map (l : List ℕ) (h : ∀ d ∈ l, d < 10) :
    decimal (l.reverse.map fun d => UInt8.ofNat (48 + d)) = Nat.ofDigits 10 l := by
  induction l with
  | nil => rfl
  | cons d l ih =>
    have hd : d < 10 := h d (by simp)
    have ih' := ih fun d hd => h d (List.mem_cons_of_mem _ hd)
    have hbyte : (UInt8.ofNat (48 + d)).toNat = 48 + d := by
      rw [UInt8.toNat_ofNat']
      omega
    rw [List.reverse_cons, List.map_append, List.map_singleton, decimal_append, ih',
      Nat.ofDigits_cons, hbyte]
    omega

/-- The decimal text of a number denotes it. -/
theorem decimal_toDecimal (n : ℕ) : decimal (toDecimal n) = n := by
  unfold toDecimal
  by_cases hn : n = 0
  · rw [if_pos hn, hn]
    rfl
  · rw [if_neg hn, decimal_reverse_map _ fun d hd => Nat.digits_lt_base (by omega) hd]
    exact Nat.ofDigits_digits 10 n

/-- A number is written in digits. -/
theorem isdigit_of_mem_toDecimal {n : ℕ} {c : UInt8} (h : c ∈ toDecimal n) :
    isdigit c = true := by
  unfold toDecimal at h
  by_cases hn : n = 0
  · rw [if_pos hn, List.mem_singleton] at h
    subst h
    rfl
  · rw [if_neg hn, List.mem_map] at h
    obtain ⟨d, hd, rfl⟩ := h
    have hlt : d < 10 := Nat.digits_lt_base (by omega) (List.mem_reverse.mp hd)
    interval_cases d <;> rfl

/-- The decimal text of a number has no more digits than one has to write. -/
theorem length_toDecimal_le {n k : ℕ} (hk : 0 < k) (h : n < 10 ^ k) :
    (toDecimal n).length ≤ k := by
  unfold toDecimal
  by_cases hn : n = 0
  · rw [if_pos hn]
    exact hk
  · rw [if_neg hn, List.length_map, List.length_reverse, Nat.length_digits 10 n (by omega) hn]
    exact Nat.log_lt_of_lt_pow hn h

theorem toDecimal_ne_nil (n : ℕ) : toDecimal n ≠ [] := by
  unfold toDecimal
  by_cases hn : n = 0
  · rw [if_pos hn]
    exact List.cons_ne_nil _ _
  · rw [if_neg hn]
    simpa [Nat.digits_eq_nil_iff_eq_zero] using hn

/-- A digit is no blank. -/
theorem isspace_eq_false_of_isdigit : ∀ c, isdigit c = true → isspace c = false :=
  byte_forall (by decide +kernel)

/-- A digit is an ASCII character. -/
theorem ascii_of_isdigit : ∀ c, isdigit c = true → c < 0x80 := byte_forall (by decide +kernel)

/-- A run of digits starts with no sign, so it is read from its first byte on. -/
theorem leadingNumber_digits (ds rest : Bytes) (hds : ds ≠ [])
    (hdig : ∀ c ∈ ds, isdigit c = true) (hrest : ∀ c ∈ rest.head?, isdigit c = false) :
    leadingNumber (ds ++ rest) = some (decimal ds : ℤ) := by
  obtain ⟨c, ds', rfl⟩ := List.exists_cons_of_ne_nil hds
  have hc : isdigit c = true := hdig c (by simp)
  have hdrop : ((c :: ds') ++ rest).dropWhile isspace = (c :: ds') ++ rest := by
    rw [List.cons_append, List.dropWhile_cons_of_neg]
    simp only [isspace_eq_false_of_isdigit c hc, Bool.false_eq_true, not_false_eq_true]
  have htake : ((c :: ds') ++ rest).takeWhile isdigit = c :: ds' := by
    rw [List.takeWhile_append_of_pos hdig]
    cases rest with
    | nil => simp
    | cons b bs =>
      rw [List.takeWhile_cons_of_neg]
      · simp
      · simp [hrest b (by simp)]
  have hsign : splitSign ((c :: ds') ++ rest) = (false, (c :: ds') ++ rest) := by
    rw [List.cons_append]
    unfold splitSign
    split
    · rename_i heq
      cases (List.cons.inj heq).1
      cases hc
    · rename_i heq
      cases (List.cons.inj heq).1
      cases hc
    · rfl
  simp only [leadingNumber, hdrop, hsign, htake, List.cons_ne_nil, if_false, Bool.false_eq_true]

/-- `stoul` keeps 64 bits of the number, and knows no other. -/
theorem stoul_eq (str : Bytes) :
    stoul str = match leadingNumber str with
      | none => .error .invalidArgument
      | some n => if 2 ^ 64 ≤ n.natAbs then .error .outOfRange else .ok (n % 2 ^ 64).toNat := by
  unfold stoul leadingNumber
  generalize splitSign (str.dropWhile isspace) = p
  obtain ⟨negative, rest⟩ := p
  dsimp only
  generalize rest.takeWhile isdigit = ds
  by_cases hds : ds = []
  · rw [if_pos hds, if_pos hds]
  · rw [if_neg hds, if_neg hds]
    generalize decimal ds = n
    cases negative with
    | true =>
      simp only [if_true, Int.natAbs_neg, Int.natAbs_natCast]
      split
      · rfl
      · refine congrArg Except.ok ?_
        omega
    | false =>
      simp only [Bool.false_eq_true, if_false, Int.natAbs_natCast]
      split
      · rfl
      · refine congrArg Except.ok ?_
        omega

/-- `stoul` reads the digits up to the first byte that is none, unless the number needs more than 64
    bits. -/
theorem stoul_digits (ds rest : Bytes) (hds : ds ≠ []) (hdig : ∀ c ∈ ds, isdigit c = true)
    (hrest : ∀ c ∈ rest.head?, isdigit c = false) :
    stoul (ds ++ rest) =
      if 2 ^ 64 ≤ decimal ds then .error .outOfRange else .ok (decimal ds) := by
  rw [stoul_eq, leadingNumber_digits ds rest hds hdig hrest]
  dsimp only
  rw [Int.natAbs_natCast]
  split
  · rfl
  · refine congrArg Except.ok ?_
    omega

/-- `stoul` reads back the decimal text of a number that fits 64 bits. -/
theorem stoul_toDecimal {n : ℕ} (hn : n < 2 ^ 64) : stoul (toDecimal n) = .ok n := by
  have h := stoul_digits (toDecimal n) [] (toDecimal_ne_nil n)
    (fun c hc => isdigit_of_mem_toDecimal hc) (by simp)
  rw [List.append_nil, decimal_toDecimal, if_neg (by omega)] at h
  exact h

example : stoul (bytes " -1x") = .ok (2 ^ 64 - 1) := by decide

end Evaluation
