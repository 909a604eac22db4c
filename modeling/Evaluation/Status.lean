import Evaluation.ParserRefines

namespace Evaluation

open Lib SocketStream

/-!
# Which status lines `parseResponse` accepts

A well-formed status line is ended by a newline and has three words or more, of which the second
is a decimal number between 1 and 2³² - 1.  `parseResponse` reads that number with `std::stoul`,
which skips a sign, stops at the first byte that is no digit and knows 64 bits, and stores it in
32 bits.

* `wellFormedStatus` — what a well-formed status line denotes, from the words of the line;
* `LenientCode` — the second words that `parseResponse` takes for a number although they are not
  such a number;
* `acceptsWellFormed_iff` — `parseResponse` accepts exactly the well-formed status lines, if and
  only if it does not meet such a word.
-/

/-- The number between 1 and 2³² - 1 that a run of decimal digits denotes. -/
def statusNumber (code : Bytes) : Option ℕ :=
  if code ≠ [] ∧ code.all isdigit = true ∧ 1 ≤ decimal code ∧ decimal code < 2 ^ 32 then
    some (decimal code)
  else none

/-- A line from its third word on. -/
def fromThirdWord (line : Bytes) : Bytes :=
  (afterFirstWord (afterFirstWord line)).dropWhile isspace

/-- The version, the code and the status of a text that starts with a well-formed status line. -/
def wellFormedStatus (S : Bytes) : Option (Bytes × ℕ × Bytes) :=
  if newline ∈ S then
    match tokens (firstLine S) with
    | version :: code :: _ :: _ =>
      (statusNumber code).map fun n => (version, n, popCR (fromThirdWord (firstLine S)))
    | _ => none
  else none

/-- `parseResponse` returns a response exactly when the status line is well-formed, and then with
    what it denotes. -/
def AcceptsWellFormed (rs : List RecvResult) : Prop :=
  ∃ r s', parseResponse.Returns (ofSocket rs) (.ok r s') ∧
    r.map (fun r => (r.version, r.code.toNat, r.status)) = wellFormedStatus (delivered rs)

/-- A second word that is no status number, and of which `std::stoul` makes a number whose lower
    32 bits are not all 0: it has a sign, something else behind its digits, or more than 32
    bits. -/
def LenientCode (code : Bytes) : Prop :=
  statusNumber code = none ∧ ∃ n, stoul code = .ok n ∧ UInt32.ofNat n ≠ 0

/-- The code as `parseResponse` reads it. -/
def lenientNumber (code : Bytes) : Option ℕ :=
  match stoul code with
  | .error _ => none
  | .ok n => if UInt32.ofNat n = 0 then none else some (UInt32.ofNat n).toNat

/-! ### The code -/

/-- A status number is read as it is. -/
theorem lenientNumber_of_status {code : Bytes} {n : ℕ} (h : statusNumber code = some n) :
    lenientNumber code = some n := by
  unfold statusNumber at h
  split_ifs at h with hcode
  obtain ⟨hne, hdigits, hpos, hlt⟩ := hcode
  cases h
  have hstoul := stoul_digits code [] hne (List.all_eq_true.mp hdigits) (by simp)
  rw [List.append_nil, if_neg (by omega)] at hstoul
  have hnum : (UInt32.ofNat (decimal code)).toNat = decimal code :=
    UInt32.toNat_ofNat_of_lt' (by rw [UInt32.size]; omega)
  have hzero : UInt32.ofNat (decimal code) ≠ 0 := by
    intro hzero
    rw [hzero] at hnum
    have : (0 : UInt32).toNat = 0 := rfl
    omega
  simp only [lenientNumber, hstoul, hzero, if_false, hnum]

/-- Whatever else is read as a number is a lenient code. -/
theorem lenientNumber_eq_iff (code : Bytes) :
    lenientNumber code = statusNumber code ↔ ¬ LenientCode code := by
  cases hstatus : statusNumber code with
  | some n =>
    refine iff_of_true (lenientNumber_of_status hstatus) ?_
    rintro ⟨hnone, -⟩
    cases hstatus.symm.trans hnone
  | none =>
    unfold LenientCode lenientNumber
    cases hstoul : stoul code with
    | error e => simp
    | ok n => by_cases hzero : UInt32.ofNat n = 0 <;> simp [hstatus, hzero]

/-! ### The line -/

/-- The third word is there, so the status is not empty. -/
theorem status_ne_nil {line : Bytes} (h : 3 ≤ (tokens line).length) :
    popCR (fromThirdWord line) ≠ [] := by
  have hthree : tokens (afterFirstWord (afterFirstWord line)) ≠ [] := by
    intro hnil
    rw [tokens_afterFirstWord, tokens_afterFirstWord] at hnil
    have hlen := congrArg List.length hnil
    rw [List.length_tail, List.length_tail, List.length_nil] at hlen
    omega
  -- A word starts with a byte that is no blank, hence no CR.
  have hall : (popCR (fromThirdWord line)).all isspace = false := by
    rw [all_popCR, Bool.eq_false_iff]
    intro hall
    refine hthree (words_eq_nil_iff.mpr ?_)
    cases hd : (afterFirstWord (afterFirstWord line)).dropWhile isspace with
    | nil => rfl
    | cons b r =>
      have hb := head_dropWhile isspace _ b (by rw [hd]; rfl)
      rw [fromThirdWord, hd, List.all_cons, hb] at hall
      cases hall
  intro hnil
  rw [hnil] at hall
  cases hall

/-- A line with three words: what `parseResponse` makes of it. -/
theorem statusOf_three {line version code status : Bytes} {rest : List Bytes}
    (h : tokens line = version :: code :: status :: rest) :
    (statusOf line).map (fun p => (p.1, p.2.1.toNat, p.2.2))
      = (lenientNumber code).map fun n => (version, n, popCR (fromThirdWord line)) := by
  have hlen : 3 ≤ (tokens line).length := by
    rw [h]
    simp
  have hversion : version ≠ [] := (of_mem_words (show version ∈ tokens line by rw [h]; simp)).1
  have hthree := tokens_three hlen
  rw [h, List.cons.injEq, List.cons.injEq] at hthree
  obtain ⟨rfl, rfl, -⟩ := hthree
  have hstatus := status_ne_nil hlen
  unfold fromThirdWord at hstatus ⊢
  unfold statusOf lenientNumber
  dsimp only
  cases hstoul : stoul (firstWord (afterFirstWord line)) with
  | error e => rfl
  | ok n =>
    dsimp only
    -- A code that is 0 when cut to 32 bits is refused.
    by_cases hzero : UInt32.ofNat n = 0
    · simp [hzero]
    · simp [hversion, hzero, hstatus]

/-- The first line has three words of which the second is a lenient code, and is ended. -/
def LenientLine (S : Bytes) : Prop :=
  newline ∈ S ∧ ∃ version code status rest,
    tokens (firstLine S) = version :: code :: status :: rest ∧ LenientCode code

/-- The status line is read as its words say if and only if it is not lenient. -/
theorem statusLineOf_eq_iff (S : Bytes) :
    (statusLineOf S).map (fun p => (p.1, p.2.1.toNat, p.2.2)) = wellFormedStatus S ↔
      ¬ LenientLine S := by
  unfold statusLineOf wellFormedStatus LenientLine
  by_cases hnl : newline ∈ S
  · simp only [hnl, if_true, true_and]
    match htokens : tokens (firstLine S) with
    | version :: code :: status :: rest =>
      have hfew := @status_ne_nil (firstLine S) (by rw [htokens]; simp)
      simp only [statusOf_three htokens, List.cons.injEq]
      constructor
      · -- Three words: the two readings differ in the number, if at all.
        rintro heq ⟨version', code', status', rest', ⟨rfl, rfl, rfl, rfl⟩, hlenient⟩
        refine (lenientNumber_eq_iff _).mp ?_ hlenient
        exact Option.map_injective (fun m n hmn => (Prod.mk.inj (Prod.mk.inj hmn).2).1) heq
      · intro hno
        rw [(lenientNumber_eq_iff code).mpr]
        exact fun hlenient => hno ⟨_, _, _, _, ⟨rfl, rfl, rfl, rfl⟩, hlenient⟩
    | [] | [_] | [_, _] =>
      rw [statusOf_few (by rw [htokens]; simp)]
      refine iff_of_true rfl ?_
      rintro ⟨_, _, _, _, ⟨⟩, -⟩
  · simp only [hnl, if_false, false_and, not_false_eq_true, iff_true]
    rfl

/-- **`parseResponse` accepts exactly the well-formed status lines** if and only if the first line
    is not one with a lenient code. -/
theorem acceptsWellFormed_iff (rs : List RecvResult)
    (hlen : (delivered rs).length < 2 ^ 32 - 1) :
    AcceptsWellFormed rs ↔ ¬ LenientLine (delivered rs) := by
  rw [← statusLineOf_eq_iff]
  obtain ⟨s', hret⟩ := parseResponse_returns rs hlen
  have hmap : (responseOf (delivered rs)).map (fun r => (r.version, r.code.toNat, r.status))
      = (statusLineOf (delivered rs)).map fun p => (p.1, p.2.1.toNat, p.2.2) := by
    rw [responseOf, Option.map_map]
    rfl
  rw [← hmap]
  constructor
  · rintro ⟨r, s'', hret', heq⟩
    cases hret'.unique hret
    exact heq
  · exact fun heq => ⟨_, s', hret, heq⟩

/-- A status line as the server of the link analysis sends it. -/
theorem acceptsWellFormed_iff_ok :
    AcceptsWellFormed [some (bytes "HTTP/1.1 20"), some (bytes "0 OK\r\n\r\n")] := by
  refine (acceptsWellFormed_iff _ (by decide)).mpr ?_
  rintro ⟨-, version, code, status, rest, htokens, hnone, -⟩
  have heq : tokens (firstLine (delivered [some (bytes "HTTP/1.1 20"),
      some (bytes "0 OK\r\n\r\n")])) = [bytes "HTTP/1.1", bytes "200", bytes "OK"] := by decide
  rw [heq] at htokens
  cases htokens
  revert hnone
  decide

/-- A number with letters behind it is accepted. -/
theorem acceptsWellFormed_counterexample :
    ¬ AcceptsWellFormed [some (bytes "HTTP/1.1 200abc OK\n")] := by
  rintro ⟨r, s', hret, heq⟩
  have hread := parseResponse_returns [some (bytes "HTTP/1.1 200abc OK\n")] (by decide)
  obtain ⟨s'', hret'⟩ := hread
  cases hret.unique hret'
  revert heq
  decide

end Evaluation
