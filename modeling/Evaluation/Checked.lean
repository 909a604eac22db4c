import Evaluation.Grammar
import Evaluation.Lib.Checked

namespace Evaluation

open Lib

/-!
# The preconditions of the library calls

The methods of `SocketStream` and the two parsers once more, with a check wherever they call a
library function that has a precondition: a `substr` starts within its string, an index is at most
the size of its string, `back` is called on a string that is not empty, and the functions of
`<cctype>` get a number between 0 and 255 or `EOF`.  The loops that the parsers run over a line are
written out byte by byte.

Which checks are enforced is a parameter.  `checks_parseRequest` and `checks_parseResponse` say that
these are checked versions of the parsers: they end as those do, or with a violation.
-/

/-- What a library function demands of its caller. -/
inductive Precondition where
  | substr
  | index
  | back
  | ctype
  deriving DecidableEq, Repr

/-- Programs over a `SocketStream` that check preconditions. -/
abbrev CheckedM := Prog (Fault Exn Precondition) SocketStream

/-- `EOF`. -/
def eof : ℤ := -1

/-- The value of a `char`, which is signed. -/
def charValue (c : UInt8) : ℤ := if c.toNat < 128 then c.toNat else c.toNat - 256

/-- The byte may be passed to `isspace` and `tolower`. -/
def ctypeArgument (c : UInt8) : Bool :=
  (0 ≤ charValue c && charValue c ≤ 255) || charValue c == eof

namespace Checked

open SocketStream (ofExcept grabIfNeeded jumpToEnd)

variable (enforced : Precondition → Bool)

/-! ### The library calls -/

/-- `isspace(c) != 0`. -/
def callIsspace (c : UInt8) : CheckedM Bool := do
  Prog.require enforced .ctype (ctypeArgument c)
  pure (isspace c)

/-- `std::tolower(c)`. -/
def callTolower (c : UInt8) : CheckedM UInt8 := do
  Prog.require enforced .ctype (ctypeArgument c)
  pure (tolower c)

/-- `str.back() == c`. -/
def callBack (str : Bytes) (c : UInt8) : CheckedM Bool := do
  Prog.require enforced .back (!str.isEmpty)
  pure (decide (str.getLast? = some c))

/-- `str.substr(pos, n)`. -/
def callSubstr (str : Bytes) (pos n : ℕ) : CheckedM Bytes := do
  Prog.require enforced .substr (decide (pos ≤ str.length))
  Prog.lift (ofExcept (substr str pos n))

/-- `str[i]`; the byte at the size of the string is NUL. -/
def callIndex (str : Bytes) (i : ℕ) : CheckedM UInt8 := do
  Prog.require enforced .index (decide (i ≤ str.length))
  pure (str.getD i 0)

/-! ### `SocketStream` -/

/-- A scan whose test may call the library. -/
def skipRound (p : UInt8 → CheckedM Bool) (i : UInt32) : CheckedM (UInt32 ⊕ UInt32) := do
  let s ← Prog.get
  if i.toNat < s.buffer.length then do
    let more ← p (s.buffer.getD i.toNat 0)
    if more then do
      Prog.lift (grabIfNeeded (i + 1))
      pure (.inl (i + 1))
    else pure (.inr i)
  else pure (.inr i)

def skip (p : UInt8 → CheckedM Bool) (i : UInt32) : CheckedM UInt32 := Prog.loop (skipRound p) i

/-- Over blanks. -/
def skipSpace (i : UInt32) : CheckedM UInt32 := skip (callIsspace enforced) i

/-- Over a word: `isspace(c) == 0`. -/
def skipWord (i : UInt32) : CheckedM UInt32 :=
  skip (fun c => do
    let blank ← callIsspace enforced c
    pure (!blank)) i

/-- Over a line, with a plain comparison. -/
def skipLine (i : UInt32) : CheckedM UInt32 := skip (fun c => pure (c != newline)) i

def hasNext : CheckedM Bool := do
  let s ← Prog.get
  Prog.lift (grabIfNeeded s.pos)
  let tmpPos ← skipSpace enforced s.pos
  let s ← Prog.get
  pure (decide (tmpPos.toNat < s.buffer.length))

def nextWord : CheckedM Bytes := do
  let s ← Prog.get
  Prog.lift (grabIfNeeded s.pos)
  let startPos ← skipSpace enforced s.pos
  let endPos ← skipWord enforced startPos
  Prog.modify fun s => { s with pos := endPos }
  let s ← Prog.get
  callSubstr enforced s.buffer startPos.toNat (endPos - startPos).toNat

def popCR (line : Bytes) : CheckedM Bytes := do
  let cr ← callBack enforced line carriageReturn
  pure (if cr then line.dropLast else line)

def lineStart (skipWhitespace : Bool) (i : UInt32) : CheckedM UInt32 :=
  if skipWhitespace then skipSpace enforced i else pure i

def nextLine (skipWhitespace : Bool) : CheckedM Bytes := do
  let s ← Prog.get
  Prog.lift (grabIfNeeded s.pos)
  let startPos ← lineStart enforced skipWhitespace s.pos
  let endPos ← skipLine startPos
  Prog.modify fun s => { s with pos := endPos + 1 }
  let s ← Prog.get
  let line ← callSubstr enforced s.buffer startPos.toNat (endPos - startPos).toNat
  popCR enforced line

def remaining : CheckedM Bytes := do
  let s ← Prog.get
  Prog.lift (grabIfNeeded s.pos)
  Prog.lift jumpToEnd
  let s' ← Prog.get
  callSubstr enforced s'.buffer s.pos.toNat s'.buffer.length

def passedBuffer : CheckedM Bytes := do
  let s ← Prog.get
  callSubstr enforced s.buffer 0 s.pos.toNat

/-! ### The parsers -/

/-- `for (const char c : line) { if (isspace(c) == 0) { ... } }`: whether that ever happens. -/
def anyVisible : Bytes → CheckedM Bool
  | [] => pure false
  | c :: line => do
    let blank ← callIsspace enforced c
    if blank then anyVisible line else pure true

/-- `for (char& c : header) { c = std::tolower(c); }`. -/
def lowerName : Bytes → CheckedM Bytes
  | [] => pure []
  | c :: name => do
    let c ← callTolower enforced c
    let name ← lowerName name
    pure (c :: name)

/-- A round of `while (isspace(line[val_start]) != 0) { val_start++; }`. -/
def blankRound (line : Bytes) (valStart : ℕ) : CheckedM (ℕ ⊕ ℕ) := do
  let c ← callIndex enforced line valStart
  let blank ← callIsspace enforced c
  pure (if blank then .inl (valStart + 1) else .inr valStart)

def skipBlanks (line : Bytes) (valStart : ℕ) : CheckedM ℕ :=
  Prog.loop (blankRound enforced line) valStart

/-- What the header loop does with a line. -/
def headerLine (headers : Headers) (line : Bytes) : CheckedM (Headers ⊕ Headers) :=
  if line.isEmpty then pure (.inr headers)
  else
    let delimPos := find line colon
    if delimPos = npos then pure (.inr headers)
    else do
      let header ← callSubstr enforced line 0 delimPos
      let name ← lowerName enforced header
      let valStart ← skipBlanks enforced line (delimPos + 1)
      let value ← callSubstr enforced line valStart line.length
      pure (.inl (headers.insert name value))

def headerRound (headers : Headers) : CheckedM (Headers ⊕ Headers) := do
  let more ← hasNext enforced
  if more then do
    let line ← nextLine enforced false
    headerLine enforced headers line
  else pure (.inr headers)

def parseHeaders : CheckedM Headers := Prog.loop (headerRound enforced) ∅

def parseBody : CheckedM Bytes := do
  let more ← hasNext enforced
  if more then remaining enforced else pure []

def parseRequestLine : CheckedM (Option (Method × Bytes × Bytes)) := do
  let word ← nextWord enforced
  let method := Method.stringToMethod word
  let resource ← nextWord enforced
  let version ← nextWord enforced
  let passed ← passedBuffer enforced
  if find passed newline ≠ npos ∨ resource.isEmpty ∨ version.isEmpty then pure none
  else do
    let line ← nextLine enforced false
    let extra ← anyVisible enforced line
    if extra then pure none
    else if method = .UNKNOWN then pure none
    else pure (some (method, resource, version))

def parseRequest : CheckedM (Option HTTPRequest) := do
  match ← parseRequestLine enforced with
  | none => pure none
  | some (method, resource, version) =>
    let headers ← parseHeaders enforced
    let body ← parseBody enforced
    pure (some { method, resource, version, headers, body })

def parseStatus (version : Bytes) (code : UInt32) : CheckedM (Option (Bytes × UInt32 × Bytes)) := do
  let status ← nextLine enforced true
  let passed ← passedBuffer enforced
  if find passed newline ≠ sizeSub passed.length 1 ∨ version.isEmpty ∨ code = 0
      ∨ status.isEmpty then pure none
  else pure (some (version, code, status))

def parseStatusLine : CheckedM (Option (Bytes × UInt32 × Bytes)) := do
  let version ← nextWord enforced
  let word ← Prog.catching (nextWord enforced)
  match word.bind stoul with
  | .error _ => pure none
  | .ok n => parseStatus enforced version (UInt32.ofNat n)

def parseResponse : CheckedM (Option HTTPResponse) := do
  match ← parseStatusLine enforced with
  | none => pure none
  | some (version, code, status) =>
    let headers ← parseHeaders enforced
    let body ← parseBody enforced
    pure (some { version, code, status, headers, body })

/-! ### The calls -/

variable {enforced} {α β : Type}

/-- The checked call of `isspace` is `isspace` with a check in front. -/
theorem checks_callIsspace (c : UInt8) :
    Prog.Checks enforced (callIsspace enforced c) (pure (isspace c)) :=
  (Prog.checks_pure (isspace c)).require_bind _ _

theorem checks_callBack (str : Bytes) (c : UInt8) :
    Prog.Checks enforced (callBack enforced str c) (pure (decide (str.getLast? = some c))) :=
  (Prog.checks_pure _).require_bind _ _

theorem checks_callSubstr (str : Bytes) (pos n : ℕ) :
    Prog.Checks enforced (callSubstr enforced str pos n) (ofExcept (substr str pos n)) :=
  (Prog.checks_lift _).require_bind _ _

/-! ### `SocketStream` -/

theorem checks_skip {p : UInt8 → CheckedM Bool} {q : UInt8 → Bool}
    (h : ∀ c, Prog.Checks enforced (p c) (pure (q c))) (i : UInt32) :
    Prog.Checks enforced (skip p i) (SocketStream.skip q i) := by
  refine Prog.checks_loop (fun i => Prog.Checks.get_bind fun s => ?_) i
  by_cases hlt : i.toNat < s.buffer.length
  · simp only [hlt, if_true, true_and]
    refine Prog.Checks.pure_bind (h _) (Prog.Checks.ite ?_ (Prog.checks_pure _))
    exact (Prog.checks_lift _).bind fun _ => Prog.checks_pure _
  · simp only [hlt, if_false, false_and]
    exact Prog.checks_pure _

theorem checks_skipSpace (i : UInt32) :
    Prog.Checks enforced (skipSpace enforced i) (SocketStream.skip isspace i) :=
  checks_skip checks_callIsspace i

theorem checks_skipWord (i : UInt32) :
    Prog.Checks enforced (skipWord enforced i) (SocketStream.skip (fun c => !isspace c) i) :=
  checks_skip (q := fun c => !isspace c)
    (fun c => Prog.Checks.pure_bind (checks_callIsspace c) (Prog.checks_pure _)) i

theorem checks_skipLine (i : UInt32) :
    Prog.Checks enforced (skipLine i) (SocketStream.skip (fun c => c != newline) i) :=
  checks_skip (fun _ => Prog.checks_pure _) i

theorem checks_hasNext : Prog.Checks enforced (hasNext enforced) SocketStream.hasNext :=
  Prog.Checks.get_bind fun s => (Prog.checks_lift _).bind fun _ =>
    (checks_skipSpace s.pos).bind fun _ => Prog.Checks.get_bind fun _ => Prog.checks_pure _

theorem checks_nextWord : Prog.Checks enforced (nextWord enforced) SocketStream.nextWord :=
  Prog.Checks.get_bind fun s => (Prog.checks_lift _).bind fun _ =>
    (checks_skipSpace s.pos).bind fun startPos => (checks_skipWord startPos).bind fun _ =>
      (Prog.checks_modify _).bind fun _ => Prog.Checks.get_bind fun _ => checks_callSubstr _ _ _

theorem checks_popCR (line : Bytes) :
    Prog.Checks enforced (popCR enforced line) (pure (SocketStream.popCR line)) := by
  refine Prog.Checks.pure_bind (checks_callBack line carriageReturn) ?_
  unfold SocketStream.popCR
  simp only [decide_eq_true_eq]
  exact Prog.checks_pure _

theorem checks_lineStart (skipWhitespace : Bool) (i : UInt32) :
    Prog.Checks enforced (lineStart enforced skipWhitespace i)
      (SocketStream.lineStart skipWhitespace i) :=
  Prog.Checks.ite (checks_skipSpace i) (Prog.checks_pure i)

theorem checks_nextLine (skipWhitespace : Bool) :
    Prog.Checks enforced (nextLine enforced skipWhitespace)
      (SocketStream.nextLine skipWhitespace) :=
  Prog.Checks.get_bind fun s => (Prog.checks_lift _).bind fun _ =>
    (checks_lineStart skipWhitespace s.pos).bind fun startPos =>
      (checks_skipLine startPos).bind fun _ => (Prog.checks_modify _).bind fun _ =>
        Prog.Checks.get_bind fun _ => (checks_callSubstr _ _ _).bind fun line => checks_popCR line

theorem checks_remaining : Prog.Checks enforced (remaining enforced) SocketStream.remaining :=
  Prog.Checks.get_bind fun _ =>
    (Prog.checks_lift _).bind fun _ => (Prog.checks_lift _).bind fun _ =>
      Prog.Checks.get_bind fun _ => checks_callSubstr _ _ _

theorem checks_passedBuffer :
    Prog.Checks enforced (passedBuffer enforced) SocketStream.passedBuffer :=
  Prog.Checks.get_bind fun _ => checks_callSubstr _ _ _

end Checked

/-! ### What a program asks of its input -/

/-- From `s` the program ends with `o` if `B` holds, as far as the calls of `back` are checked, and
    `T` does, as far as those of `isspace` and `tolower` are; and with a violation if not. -/
def Asks {α : Type} (enforced : Precondition → Bool) (x : CheckedM α) (s : SocketStream)
    (o : Outcome Exn SocketStream α) (B T : Prop) : Prop :=
  Prog.Meets enforced x s o ((enforced .back = true → B) ∧ (enforced .ctype = true → T))

namespace Asks

variable {enforced : Precondition → Bool} {α β : Type} {s s' : SocketStream} {B C T U : Prop}

theorem congr {x : CheckedM α} {o : Outcome Exn SocketStream α} (h : Asks enforced x s o B T)
    (hB : B ↔ C) (hT : T ↔ U) : Asks enforced x s o C U :=
  Prog.Meets.congr h (and_congr (imp_congr_right fun _ => hB) (imp_congr_right fun _ => hT))

/-- It asks for nothing. -/
theorem of_returns {x : CheckedM α} {o : Outcome Exn SocketStream α} (h : x.Returns s o.lift) :
    Asks enforced x s o True True :=
  (Prog.meets_of_returns h).congr (by simp)

theorem pure (a : α) (s : SocketStream) : Asks enforced (pure a) s (.ok a s) True True :=
  of_returns ((Prog.returns_pure a s _).mpr rfl)

/-- The end may be that of the program without the checks. -/
theorem of_checks {x : CheckedM α} {y : StreamM α} {o o' : Outcome Exn SocketStream α}
    (h : Asks enforced x s o' B T) (hxy : Prog.Checks enforced x y) (ho : y.Returns s o) :
    Asks enforced x s o B T := Prog.Meets.of_checks h hxy ho

/-- How the checked program ends need not be known beforehand. -/
theorem of_exists {x : CheckedM α} {y : StreamM α} {o : Outcome Exn SocketStream α}
    (h : ∃ o', Asks enforced x s o' B T) (hxy : Prog.Checks enforced x y) (ho : y.Returns s o) :
    Asks enforced x s o B T := by
  obtain ⟨o', ho'⟩ := h
  exact ho'.of_checks hxy ho

theorem of_returns_ok {x : CheckedM α} {a : α} (h : x.Returns s (.ok a s')) :
    Asks enforced x s (.ok a s') True True := of_returns (o := .ok a s') h

theorem bind {x : CheckedM α} {f : α → CheckedM β} {a : α} {o : Outcome Exn SocketStream β}
    (hx : Asks enforced x s (.ok a s') B T) (hf : Asks enforced (f a) s' o C U) :
    Asks enforced (x >>= f) s o (B ∧ C) (T ∧ U) :=
  (Prog.Meets.bind hx hf).congr (by tauto)

/-- What is done with the value in the end. -/
theorem map {x : CheckedM α} {a : α} (h : Asks enforced x s (.ok a s') B T) (f : α → β) :
    Asks enforced (do let a ← x; Pure.pure (f a)) s (.ok (f a) s') B T := Prog.Meets.map h f

theorem bind_of_returns {x : CheckedM α} {f : α → CheckedM β} {a : α}
    {o : Outcome Exn SocketStream β} (hx : x.Returns s (.ok a s'))
    (hf : Asks enforced (f a) s' o B T) : Asks enforced (x >>= f) s o B T :=
  Prog.Meets.bind_of_returns hx hf

theorem get_bind {f : SocketStream → CheckedM α} {o : Outcome Exn SocketStream α}
    (h : Asks enforced (f s) s o B T) : Asks enforced (Prog.get >>= f) s o B T :=
  Prog.Meets.get_bind h

theorem modify_bind {g : SocketStream → SocketStream} {f : Unit → CheckedM α}
    {o : Outcome Exn SocketStream α} (h : Asks enforced (f ()) (g s) o B T) :
    Asks enforced (Prog.modify g >>= f) s o B T := Prog.Meets.modify_bind h

/-- What a `catch` surrounds asks for what it asked for. -/
theorem caught {x : CheckedM α} {a : α} (h : Asks enforced x s (.ok a s') B T) :
    Asks enforced (Prog.catching x) s (.ok (.ok a) s') B T := Prog.Meets.caught h

theorem lift_bind {y : StreamM α} {f : α → CheckedM β} {a : α} {o : Outcome Exn SocketStream β}
    (hy : y.Returns s (.ok a s')) (hf : Asks enforced (f a) s' o B T) :
    Asks enforced (Prog.lift y >>= f) s o B T := Prog.Meets.lift_bind hy hf

/-- A round that goes on, and the rounds behind it. -/
theorem loop_next {f : α → CheckedM (α ⊕ β)} {a a' : α} {o : Outcome Exn SocketStream β}
    (hf : Asks enforced (f a) s (.ok (.inl a') s') B T)
    (hrest : Asks enforced (Prog.loop f a') s' o C U) :
    Asks enforced (Prog.loop f a) s o (B ∧ C) (T ∧ U) :=
  (Prog.Meets.loop_next hf hrest).congr (by tauto)

theorem loop_done {f : α → CheckedM (α ⊕ β)} {a : α} {b : β}
    (hf : Asks enforced (f a) s (.ok (.inr b) s') B T) :
    Asks enforced (Prog.loop f a) s (.ok b s') B T := Prog.Meets.loop_done hf

end Asks

/-! ### The bytes of a line -/

/-- Every byte may be passed to `isspace` and `tolower`. -/
def Legal (w : Bytes) : Prop := ∀ c ∈ w, ctypeArgument c = true

/-- The first byte that is no blank may be passed to `isspace`; blanks always may. -/
def VisibleLegal (w : Bytes) : Prop := Legal (w.dropWhile isspace).head?.toList

instance (w : Bytes) : Decidable (Legal w) :=
  decidable_of_iff (w.all ctypeArgument = true) List.all_eq_true

instance (w : Bytes) : Decidable (VisibleLegal w) := inferInstanceAs (Decidable (Legal _))

/-- Every blank may be passed to `isspace`. -/
theorem ctypeArgument_of_isspace : ∀ c, isspace c = true → ctypeArgument c = true :=
  byte_forall (by decide +kernel)

@[simp] theorem legal_nil : Legal [] := nofun

theorem legal_cons (c : UInt8) (w : Bytes) :
    Legal (c :: w) ↔ ctypeArgument c = true ∧ Legal w := List.forall_mem_cons

theorem visibleLegal_nil : VisibleLegal [] := nofun

theorem visibleLegal_cons (c : UInt8) (w : Bytes) :
    VisibleLegal (c :: w) ↔
      ctypeArgument c = true ∧ (isspace c = true → VisibleLegal w) := by
  unfold VisibleLegal
  by_cases hc : isspace c = true
  · rw [List.dropWhile_cons_of_pos hc]
    simp [hc, ctypeArgument_of_isspace c hc]
  · rw [List.dropWhile_cons_of_neg hc]
    simp [hc, legal_cons]

namespace Checked

open SocketStream (ofExcept)

variable (enforced : Precondition → Bool)

/-- A check of an argument of `isspace` asks that the argument be valid. -/
theorem asks_require_ctype (holds : Bool) (s : SocketStream) :
    Asks enforced (Prog.require enforced .ctype holds) s (.ok () s) True (holds = true) := by
  refine Prog.Meets.congr (Prog.meets_require Precondition.ctype holds s) ?_
  simp

/-- A check in front of `back` asks that the string be not empty. -/
theorem asks_require_back (holds : Bool) (s : SocketStream) :
    Asks enforced (Prog.require enforced .back holds) s (.ok () s) (holds = true) True := by
  refine Prog.Meets.congr (Prog.meets_require Precondition.back holds s) ?_
  simp

/-- `isspace` asks that its argument be valid. -/
theorem asks_callIsspace (c : UInt8) (s : SocketStream) :
    Asks enforced (callIsspace enforced c) s (.ok (isspace c) s) True
      (ctypeArgument c = true) :=
  (asks_require_ctype enforced _ s).map fun _ => isspace c

/-- `tolower` asks that its argument be valid. -/
theorem asks_callTolower (c : UInt8) (s : SocketStream) :
    Asks enforced (callTolower enforced c) s (.ok (tolower c) s) True
      (ctypeArgument c = true) :=
  (asks_require_ctype enforced _ s).map fun _ => tolower c

/-- `back` asks that its string be not empty. -/
theorem asks_callBack (str : Bytes) (c : UInt8) (s : SocketStream) :
    Asks enforced (callBack enforced str c) s (.ok (decide (str.getLast? = some c)) s)
      (str ≠ []) True :=
  ((asks_require_back enforced _ s).map fun _ => decide (str.getLast? = some c)).congr
    (by simp) Iff.rfl

/-- A check that holds goes unnoticed. -/
theorem returns_require {p : Precondition} {holds : Bool} (h : holds = true) (s : SocketStream) :
    (Prog.require enforced p holds : CheckedM Unit).Returns s (.ok () s) := by
  unfold Prog.require
  rw [h, Bool.not_true, Bool.and_false, if_neg Bool.false_ne_true]
  exact (Prog.returns_pure () s _).mpr rfl

/-- `substr` returns whatever is enforced if it starts within the string. -/
theorem callSubstr_returns {str : Bytes} {pos : ℕ} (h : pos ≤ str.length) (n : ℕ)
    (s : SocketStream) : (callSubstr enforced str pos n).Returns s
      (.ok ((str.drop pos).take n) s) := by
  refine (Prog.returns_bind_of_ok (returns_require enforced (decide_eq_true h) s) _).mpr ?_
  refine Prog.Returns.lift (o := .ok ((str.drop pos).take n) s) ?_
  rw [SocketStream.returns_ofExcept, substr, if_pos h]

/-- So does an index up to the length: there a string has its final NUL. -/
theorem callIndex_returns {str : Bytes} {i : ℕ} (h : i ≤ str.length) (s : SocketStream) :
    (callIndex enforced str i).Returns s (.ok (str.getD i 0) s) :=
  (Prog.returns_bind_of_ok (returns_require enforced (decide_eq_true h) s) _).mpr
    ((Prog.returns_pure _ s _).mpr rfl)

/-- Taking the CR off a line asks that there be a last byte. -/
theorem asks_popCR (line : Bytes) (s : SocketStream) :
    Asks enforced (popCR enforced line) s (.ok (SocketStream.popCR line) s) (line ≠ []) True := by
  have h : Asks enforced (popCR enforced line) s _ (line ≠ []) True :=
    (asks_callBack enforced line carriageReturn s).map fun cr => if cr then line.dropLast else line
  exact h.of_checks (checks_popCR line) ((Prog.returns_pure _ s _).mpr rfl)

/-- The loop over the rest of the first line stops at its first visible byte. -/
theorem asks_anyVisible (line : Bytes) (s : SocketStream) :
    Asks enforced (anyVisible enforced line) s (.ok (line.any fun c => !isspace c) s) True
      (VisibleLegal line) := by
  induction line with
  | nil => exact (Asks.pure false s).congr Iff.rfl (iff_of_true trivial visibleLegal_nil)
  | cons c line ih =>
    have hrest : Asks enforced
        (if isspace c then anyVisible enforced line else (pure true : CheckedM Bool)) s
        (.ok ((c :: line).any fun c => !isspace c) s) True
        (isspace c = true → VisibleLegal line) := by
      rw [List.any_cons]
      cases hc : isspace c with
      | true => simpa using ih
      | false =>
        rw [if_neg Bool.false_ne_true]
        exact (Asks.pure true s).congr Iff.rfl (by simp)
    exact ((asks_callIsspace enforced c s).bind hrest).congr (by simp)
      (visibleLegal_cons c line).symm

/-- Lowering a name passes all its bytes to `tolower`. -/
theorem asks_lowerName (name : Bytes) (s : SocketStream) :
    Asks enforced (lowerName enforced name) s (.ok (Evaluation.lowerName name) s) True
      (Legal name) := by
  induction name with
  | nil => exact (Asks.pure [] s).congr Iff.rfl (iff_of_true trivial legal_nil)
  | cons c name ih =>
    have hrest := ih.map fun name => tolower c :: name
    exact ((asks_callTolower enforced c s).bind hrest).congr (by simp) (legal_cons c name).symm

/-- The loop over the blanks in front of a value looks at nothing behind the NUL. -/
theorem asks_skipBlanks (line : Bytes) {i : ℕ} (hi : i ≤ line.length) (s : SocketStream) :
    Asks enforced (skipBlanks enforced line i) s (.ok (Evaluation.skipBlanks line i) s) True
      (VisibleLegal (line.drop i)) := by
  -- Induction on what is left of the line.
  induction htail : line.drop i generalizing i with
  | nil =>
    have hend : line.getD i 0 = 0 := by
      rw [List.getD_eq_getElem?_getD, List.getElem?_eq_none (List.drop_eq_nil_iff.mp htail)]
      rfl
    have hround : Asks enforced (blankRound enforced line i) s (.ok (.inr i) s) True True := by
      unfold blankRound
      refine Asks.bind_of_returns (callIndex_returns enforced hi s) ?_
      rw [hend]
      refine Asks.congr ((asks_callIsspace enforced 0 s).map fun blank =>
        if blank then Sum.inl (i + 1) else Sum.inr i) Iff.rfl (iff_of_true ?_ trivial)
      decide
    have hskip : Evaluation.skipBlanks line i = i := by
      rw [Evaluation.skipBlanks, htail]
      rfl
    rw [hskip]
    exact hround.loop_done.congr Iff.rfl (iff_of_true trivial visibleLegal_nil)
  | cons c rest ih =>
    have hlt : i < line.length := by
      by_contra hge
      rw [List.drop_eq_nil_of_le (by omega)] at htail
      cases htail
    have hcons := List.drop_eq_getElem_cons hlt
    rw [htail, List.cons.injEq] at hcons
    obtain ⟨hc, hrest⟩ := hcons
    have hbyte : line.getD i 0 = c := by
      rw [List.getD_eq_getElem?_getD, List.getElem?_eq_getElem hlt, Option.getD_some, hc]
    have hround : Asks enforced (blankRound enforced line i) s
        (.ok (if isspace c then .inl (i + 1) else .inr i) s) True (ctypeArgument c = true) := by
      unfold blankRound
      refine Asks.bind_of_returns (callIndex_returns enforced hi s) ?_
      rw [hbyte]
      exact (asks_callIsspace enforced c s).map fun blank =>
        if blank then Sum.inl (i + 1) else Sum.inr i
    by_cases hblank : isspace c = true
    · have hskip : Evaluation.skipBlanks line i = Evaluation.skipBlanks line (i + 1) := by
        rw [Evaluation.skipBlanks, Evaluation.skipBlanks, htail, ← hrest,
          List.takeWhile_cons_of_pos hblank, List.length_cons]
        omega
      rw [if_pos hblank] at hround
      rw [hskip]
      refine (hround.loop_next (ih hlt hrest.symm)).congr (by simp) ?_
      rw [visibleLegal_cons]
      simp [hblank]
    · have hskip : Evaluation.skipBlanks line i = i := by
        rw [Evaluation.skipBlanks, htail, List.takeWhile_cons_of_neg hblank]
        rfl
      rw [if_neg hblank] at hround
      rw [hskip]
      refine hround.loop_done.congr Iff.rfl ?_
      rw [visibleLegal_cons]
      simp [hblank]

/-! ### The parsers -/

variable {enforced}

theorem checks_anyVisible (line : Bytes) :
    Prog.Checks enforced (anyVisible enforced line) (pure (line.any fun c => !isspace c)) :=
  Prog.Meets.checks fun s => asks_anyVisible enforced line s

theorem checks_lowerName (name : Bytes) :
    Prog.Checks enforced (lowerName enforced name) (pure (Evaluation.lowerName name)) :=
  Prog.Meets.checks fun s => asks_lowerName enforced name s

theorem checks_skipBlanks {line : Bytes} {i : ℕ} (hi : i ≤ line.length) :
    Prog.Checks enforced (skipBlanks enforced line i) (pure (Evaluation.skipBlanks line i)) :=
  Prog.Meets.checks fun s => asks_skipBlanks enforced line hi s

/-- Where a colon is found there is one. -/
theorem find_colon_lt {line : Bytes} (h : find line colon ≠ npos) :
    find line colon + 1 ≤ line.length := by
  have hcolon : colon ∈ line := by
    by_contra hno
    exact h (find_of_not_mem hno)
  rw [find_of_mem hcolon]
  exact length_lineOf_lt hcolon

theorem checks_headerRound (headers : Headers) :
    Prog.Checks enforced (headerRound enforced headers) (Evaluation.headerRound headers) := by
  refine checks_hasNext.bind fun more => Prog.Checks.ite ?_ (Prog.checks_pure _)
  refine (checks_nextLine false).bind fun line => ?_
  unfold headerLine
  refine Prog.Checks.ite (Prog.checks_pure _) ?_
  by_cases hdelim : find line colon = npos
  · simp only [hdelim, if_true]
    exact Prog.checks_pure _
  · simp only [hdelim, if_false]
    refine (checks_callSubstr _ _ _).bind fun header => ?_
    refine Prog.Checks.pure_bind (checks_lowerName header) ?_
    refine Prog.Checks.pure_bind (checks_skipBlanks (find_colon_lt hdelim)) ?_
    exact (checks_callSubstr _ _ _).bind fun value => Prog.checks_pure _

theorem checks_parseHeaders :
    Prog.Checks enforced (parseHeaders enforced) Evaluation.parseHeaders :=
  Prog.checks_loop checks_headerRound ∅

theorem checks_parseBody : Prog.Checks enforced (parseBody enforced) Evaluation.parseBody :=
  checks_hasNext.bind fun _ => Prog.Checks.ite checks_remaining (Prog.checks_pure _)

theorem checks_parseRequestLine :
    Prog.Checks enforced (parseRequestLine enforced) Evaluation.parseRequestLine := by
  refine checks_nextWord.bind fun word => checks_nextWord.bind fun resource => ?_
  refine checks_nextWord.bind fun version => checks_passedBuffer.bind fun passed => ?_
  refine Prog.Checks.ite (Prog.checks_pure _) ?_
  refine (checks_nextLine false).bind fun line => ?_
  refine Prog.Checks.pure_bind (checks_anyVisible line) ?_
  exact Prog.Checks.ite (Prog.checks_pure _)
    (Prog.Checks.ite (Prog.checks_pure _) (Prog.checks_pure _))

/-- **The checked `parseRequest`** is a checked version of `parseRequest`. -/
theorem checks_parseRequest :
    Prog.Checks enforced (parseRequest enforced) Evaluation.parseRequest := by
  refine checks_parseRequestLine.bind fun line => ?_
  cases line with
  | none => exact Prog.checks_pure _
  | some p =>
    exact checks_parseHeaders.bind fun headers => checks_parseBody.bind fun body =>
      Prog.checks_pure _

theorem checks_parseStatus (version : Bytes) (code : UInt32) :
    Prog.Checks enforced (parseStatus enforced version code)
      (Evaluation.parseStatus version code) :=
  (checks_nextLine true).bind fun _ => checks_passedBuffer.bind fun _ =>
    Prog.Checks.ite (Prog.checks_pure _) (Prog.checks_pure _)

theorem checks_parseStatusLine :
    Prog.Checks enforced (parseStatusLine enforced) Evaluation.parseStatusLine := by
  refine checks_nextWord.bind fun version => checks_nextWord.catching.bind fun word => ?_
  cases word.bind stoul with
  | error e => exact Prog.checks_pure _
  | ok n => exact checks_parseStatus version (UInt32.ofNat n)

/-- **The checked `parseResponse`** is a checked version of `parseResponse`. -/
theorem checks_parseResponse :
    Prog.Checks enforced (parseResponse enforced) Evaluation.parseResponse := by
  refine checks_parseStatusLine.bind fun line => ?_
  cases line with
  | none => exact Prog.checks_pure _
  | some p =>
    exact checks_parseHeaders.bind fun headers => checks_parseBody.bind fun body =>
      Prog.checks_pure _

end Checked

end Evaluation
