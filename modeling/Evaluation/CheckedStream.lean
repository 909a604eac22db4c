import Evaluation.Checked
import Evaluation.Reading

namespace Evaluation

open Lib

/-!
# What the methods of a `SocketStream` ask of the text

Each checked method is run against a stream that tracks a cursor, as in `Cursor.lean`: it answers
as the cursor's does if the text meets a condition, and ends with a violation if not.  The `substr`
that a method calls starts in the buffer or at its end, whatever the text is.

* `asks_skip` — a scan passes the bytes that it stops before, and the one that stops it, to its
  test;
* `asks_hasNext`, `asks_nextWord`, `asks_nextLine` — the byte behind the blanks, the bytes of the
  word, and a line that is not empty when its last byte is looked at;
* `unviolated_remaining` — `remaining` asks for nothing, and that also where it does not end.
-/

/-- The line that `nextLine` takes out of the buffer, with the CR that may end it. -/
def Cursor.rawLine (skipWhitespace : Bool) (c : Cursor) : Bytes :=
  lineOf newline (if skipWhitespace then c.rest.dropWhile isspace else c.rest)

namespace Checked

open SocketStream (grabIfNeeded)

variable (enforced : Precondition → Bool)

/-! ### Scans -/

/-- The bytes that a scan looks at: those that it passes over, and the next one. -/
def scanned (q : UInt8 → Bool) (w : Bytes) : Bytes :=
  w.takeWhile q ++ (w.dropWhile q).head?.toList

@[simp] theorem scanned_nil (q : UInt8 → Bool) : scanned q [] = [] := rfl

/-- A byte that passes the test is looked at, and then the next one. -/
theorem scanned_cons_of_pos {q : UInt8 → Bool} {c : UInt8} (h : q c = true) (w : Bytes) :
    scanned q (c :: w) = c :: scanned q w := by
  rw [scanned, List.takeWhile_cons_of_pos h, List.dropWhile_cons_of_pos h]
  rfl

/-- A byte that fails the test is the last that is looked at. -/
theorem scanned_cons_of_neg {q : UInt8 → Bool} {c : UInt8} (h : ¬ q c = true) (w : Bytes) :
    scanned q (c :: w) = [c] := by
  rw [scanned, List.takeWhile_cons_of_neg h, List.dropWhile_cons_of_neg h]
  rfl

/-- Blanks may always be passed to `isspace`. -/
theorem legal_takeWhile_isspace (w : Bytes) : Legal (w.takeWhile isspace) :=
  fun c hc => ctypeArgument_of_isspace c (List.mem_takeWhile_imp hc)

/-- Two pieces may be classified if each may. -/
theorem legal_append (v w : Bytes) : Legal (v ++ w) ↔ Legal v ∧ Legal w := List.forall_mem_append

/-- A scan over blanks looks at these and at the first visible byte. -/
theorem legal_scanned_isspace (w : Bytes) : Legal (scanned isspace w) ↔ VisibleLegal w := by
  rw [scanned, legal_append]
  exact and_iff_right (legal_takeWhile_isspace w)

/-- The byte that ends a word is a blank. -/
theorem legal_scanned_word (w : Bytes) :
    Legal (scanned (fun c => !isspace c) w) ↔ Legal (w.takeWhile fun c => !isspace c) := by
  rw [scanned, legal_append]
  refine and_iff_left fun c hc => ctypeArgument_of_isspace c ?_
  have hstop := head_dropWhile (fun c => !isspace c) w c (by simpa using hc)
  simpa using hstop

variable {enforced} {p : UInt8 → CheckedM Bool} {q : UInt8 → Bool} {P : UInt8 → Prop}

/-- A round of a scan that passes over a byte. -/
theorem asks_skipRound_next (hp : ∀ c s, Asks enforced (p c) s (.ok (q c) s) True (P c))
    {s s' : SocketStream} {i : UInt32} (hlt : i.toNat < s.buffer.length)
    (hq : q (s.buffer.getD i.toNat 0) = true)
    (hgrab : (grabIfNeeded (i + 1)).Returns s (.ok () s')) :
    Asks enforced (skipRound p i) s (.ok (.inl (i + 1)) s') True
      (P (s.buffer.getD i.toNat 0)) := by
  have htest := hp (s.buffer.getD i.toNat 0) s
  rw [hq] at htest
  refine Asks.get_bind ?_
  rw [if_pos hlt]
  refine Asks.congr (Asks.bind htest ?_) and_self_iff (and_iff_left trivial)
  rw [if_pos rfl]
  exact Asks.lift_bind hgrab (Asks.pure _ s')

/-- A round of a scan that stops at a byte. -/
theorem asks_skipRound_stop (hp : ∀ c s, Asks enforced (p c) s (.ok (q c) s) True (P c))
    {s : SocketStream} {i : UInt32} (hlt : i.toNat < s.buffer.length)
    (hq : q (s.buffer.getD i.toNat 0) = false) :
    Asks enforced (skipRound p i) s (.ok (.inr i) s) True (P (s.buffer.getD i.toNat 0)) := by
  have htest := hp (s.buffer.getD i.toNat 0) s
  rw [hq] at htest
  refine Asks.get_bind ?_
  rw [if_pos hlt]
  refine Asks.congr (Asks.bind htest ?_) and_self_iff (and_iff_left trivial)
  rw [if_neg Bool.false_ne_true]
  exact Asks.pure _ s

/-- A round of a scan that is at the end of the buffer. -/
theorem asks_skipRound_end {s : SocketStream} {i : UInt32} (hge : ¬ i.toNat < s.buffer.length) :
    Asks enforced (skipRound p i) s (.ok (.inr i) s) True True := by
  refine Asks.get_bind ?_
  rw [if_neg hge]
  exact Asks.pure _ s

/-- **A scan** passes the bytes that it looks at to its test. -/
theorem asks_skip (hp : ∀ c s, Asks enforced (p c) s (.ok (q c) s) True (P c))
    {s s' : SocketStream} {i j : UInt32} (hl : s.Looked i)
    (hend : i.toNat + ((s.text.drop i.toNat).takeWhile q).length < 2 ^ 32)
    (hret : (SocketStream.skip q i).Returns s (.ok j s')) :
    Asks enforced (skip p i) s (.ok j s') True (∀ c ∈ scanned q (s.text.drop i.toNat), P c) := by
  refine Asks.of_exists ?_ (checks_skip (fun c => Prog.Meets.checks fun s => hp c s) i) hret
  clear hret
  -- Induction on the bytes of the text from `i` on.
  induction htail : s.text.drop i.toNat generalizing s i with
  | nil =>
    have hge : ¬ i.toNat < s.buffer.length := by
      intro hlt
      rw [SocketStream.drop_text_of_lt hlt] at htail
      cases htail
    exact ⟨_, (asks_skipRound_end hge).loop_done.congr Iff.rfl (by simp)⟩
  | cons c rest ih =>
    have hlt : i.toNat < s.buffer.length := by
      by_contra hge
      rw [SocketStream.drop_text_of_looked hl (by omega)] at htail
      cases htail
    have hcons := SocketStream.drop_text_of_lt hlt
    rw [htail, List.cons.injEq] at hcons
    obtain ⟨hc, hrest⟩ := hcons
    by_cases hq : q c = true
    · rw [htail, List.takeWhile_cons_of_pos hq, List.length_cons] at hend
      have hnext : (i + 1).toNat = i.toNat + 1 := by
        rw [UInt32.toNat_add, UInt32.toNat_one]
        omega
      obtain ⟨s1, hgrab, hgrown, hlook⟩ := SocketStream.grabIfNeeded_returns (s := s) (i := i + 1)
        (.inl (by omega))
      have htail1 : s1.text.drop (i + 1).toNat = rest := by rw [hgrown.text, hnext, ← hrest]
      obtain ⟨o, ho⟩ := ih hlook (by rw [htail1, hnext]; omega) htail1
      have hround := asks_skipRound_next hp hlt (by rw [← hc]; exact hq) hgrab
      rw [← hc] at hround
      refine ⟨o, (hround.loop_next ho).congr and_self_iff ?_⟩
      rw [scanned_cons_of_pos hq, List.forall_mem_cons]
    · have hround := asks_skipRound_stop hp hlt
        (by rw [← hc]; exact Bool.eq_false_of_not_eq_true hq)
      rw [← hc] at hround
      refine ⟨_, hround.loop_done.congr Iff.rfl ?_⟩
      rw [scanned_cons_of_neg hq, List.forall_mem_singleton]

section
variable (enforced) {s s' : SocketStream} {i j : UInt32}

/-- A scan over blanks asks that the first visible byte may be classified. -/
theorem asks_skipSpace (hl : s.Looked i)
    (hend : i.toNat + ((s.text.drop i.toNat).takeWhile isspace).length < 2 ^ 32)
    (hret : (SocketStream.skip isspace i).Returns s (.ok j s')) :
    Asks enforced (skipSpace enforced i) s (.ok j s') True
      (VisibleLegal (s.text.drop i.toNat)) :=
  (asks_skip (asks_callIsspace enforced) hl hend hret).congr Iff.rfl (legal_scanned_isspace _)

/-- A scan over a word asks that of all its bytes. -/
theorem asks_skipWord (hl : s.Looked i)
    (hend : i.toNat + ((s.text.drop i.toNat).takeWhile fun c => !isspace c).length < 2 ^ 32)
    (hret : (SocketStream.skip (fun c => !isspace c) i).Returns s (.ok j s')) :
    Asks enforced (skipWord enforced i) s (.ok j s') True
      (Legal ((s.text.drop i.toNat).takeWhile fun c => !isspace c)) := by
  refine (asks_skip (fun c s => ?_) hl hend hret).congr Iff.rfl (legal_scanned_word _)
  exact (asks_callIsspace enforced c s).map fun blank => !blank

/-- A scan over a line asks for nothing. -/
theorem asks_skipLine (hl : s.Looked i)
    (hend : i.toNat + (lineOf newline (s.text.drop i.toNat)).length < 2 ^ 32)
    (hret : (SocketStream.skip (fun c => c != newline) i).Returns s (.ok j s')) :
    Asks enforced (skipLine i) s (.ok j s') True True :=
  (asks_skip (fun _ s => Asks.pure _ s) hl hend hret).congr Iff.rfl (by simp)

end

/-! ### The methods -/

variable (enforced)

open SocketStream (start_returns skip_returns skipLine_returns)

/-- The first byte of the next word is the first that is no blank. -/
theorem visibleLegal_of_firstWord {w : Bytes} (h : Legal (firstWord w)) : VisibleLegal w := by
  intro c hc
  cases hd : w.dropWhile isspace with
  | nil =>
    rw [hd] at hc
    cases hc
  | cons b rest =>
    have hb := head_dropWhile isspace w b (by rw [hd]; rfl)
    rw [hd, List.head?_cons, Option.toList_some, List.mem_singleton] at hc
    refine h c ?_
    rw [firstWord, hd, List.takeWhile_cons_of_pos (by rw [hb]; rfl), hc]
    exact List.mem_cons_self ..

/-- `hasNext` classifies the blanks ahead and the first visible byte. -/
theorem asks_hasNext {s : SocketStream} {c : Cursor} (h : Tracks s c)
    (hend : c.pos + (c.rest.takeWhile isspace).length < 2 ^ 32) :
    ∃ s', Tracks s' c ∧
      Asks enforced (hasNext enforced) s (.ok c.hasNext s') True (VisibleLegal c.rest) := by
  obtain ⟨s', hret, htr⟩ := SocketStream.hasNext_returns h hend
  obtain ⟨s1, hgrab, hgrown1, hlook1⟩ := start_returns h
  have hrest : s1.text.drop s.pos.toNat = c.rest := by rw [hgrown1.text, h.text, h.pos]; rfl
  have hend1 : s.pos.toNat + ((s1.text.drop s.pos.toNat).takeWhile isspace).length < 2 ^ 32 := by
    rw [hrest, h.pos]
    exact hend
  obtain ⟨j, s2, hskip, -, -, -⟩ := skip_returns isspace hlook1 hend1
  have hscan := asks_skipSpace enforced hlook1 hend1 hskip
  rw [hrest] at hscan
  refine ⟨s', htr, Asks.of_exists ?_ checks_hasNext hret⟩
  exact ⟨_, Asks.congr (Asks.get_bind (Asks.lift_bind hgrab (Asks.bind hscan (Asks.get_bind
    (Asks.pure _ s2))))) and_self_iff (and_iff_left trivial)⟩

/-- `nextWord` classifies the blanks in front of the word, the word, and the blank behind it. -/
theorem asks_nextWord {s : SocketStream} {c : Cursor} (h : Tracks s c)
    (hpos : c.pos ≤ c.text.length) (hend : c.afterWord.pos < 2 ^ 32) :
    ∃ s', Tracks s' c.afterWord ∧
      Asks enforced (nextWord enforced) s (.ok c.word s') True (Legal c.word) := by
  obtain ⟨s', hret, htr⟩ := nextWord_tracks h hpos hend
  have hafter : c.afterWord.pos = c.pos + (c.rest.takeWhile isspace).length + c.word.length := rfl
  obtain ⟨s1, hgrab, hgrown1, hlook1⟩ := start_returns h
  have htext1 : s1.text = c.text := hgrown1.text.trans h.text
  have hrest : s1.text.drop s.pos.toNat = c.rest := by rw [htext1, h.pos]; rfl
  -- Over the blanks before the word, which end in the buffer.
  have hend1 : s.pos.toNat + ((s1.text.drop s.pos.toNat).takeWhile isspace).length < 2 ^ 32 := by
    rw [hrest, h.pos]
    omega
  obtain ⟨j, s2, hskip1, hgrown2, hlook2, hj⟩ := skip_returns isspace hlook1 hend1
  rw [hrest, h.pos] at hj
  have htext2 : s2.text = c.text := hgrown2.text.trans htext1
  have hword : s2.text.drop j.toNat = c.rest.dropWhile isspace := by
    rw [hj, htext2, ← List.drop_drop, ← drop_length_takeWhile isspace c.rest]
    rfl
  have hin2 : j.toNat ≤ s2.buffer.length := by
    have hle := Cursor.afterWord_pos_le hpos
    exact SocketStream.le_buffer_of_looked hlook2 (by rw [htext2]; omega)
  -- Over the word.
  have hend2 : j.toNat + ((s2.text.drop j.toNat).takeWhile fun b => !isspace b).length
      < 2 ^ 32 := by
    rw [hword, hj]
    exact hend
  obtain ⟨k, s3, hskip2, hgrown3, -, -⟩ := skip_returns (fun b => !isspace b) hlook2 hend2
  have hin3 : j.toNat ≤ s3.buffer.length := hin2.trans hgrown3.buffer.length_le
  have hscan1 := asks_skipSpace enforced hlook1 hend1 hskip1
  have hscan2 := asks_skipWord enforced hlook2 hend2 hskip2
  rw [hrest] at hscan1
  rw [hword] at hscan2
  refine ⟨s', htr, Asks.of_exists ?_ checks_nextWord hret⟩
  have hlegal : VisibleLegal c.rest ∧ Legal c.word ∧ True ↔ Legal c.word := by
    rw [and_true]
    exact and_iff_right_of_imp visibleLegal_of_firstWord
  exact ⟨_, Asks.congr (Asks.get_bind (Asks.lift_bind hgrab (Asks.bind hscan1 (Asks.bind hscan2
    (Asks.modify_bind (Asks.get_bind
      (Asks.of_returns_ok (callSubstr_returns enforced hin3 _ _)))))))) (by simp) hlegal⟩

/-- A line starts where the cursor stands, or behind blanks that `isspace` has classified. -/
theorem asks_lineStart {s : SocketStream} {i : UInt32} (skipWhitespace : Bool) (hl : s.Looked i)
    (hend : i.toNat + ((s.text.drop i.toNat).takeWhile isspace).length < 2 ^ 32
      ∨ skipWhitespace = false) :
    ∃ j s', Asks enforced (lineStart enforced skipWhitespace i) s (.ok j s') True
        (skipWhitespace = true → VisibleLegal (s.text.drop i.toNat)) ∧
      s.Grown s' ∧ s'.Looked j ∧ j.toNat = i.toNat +
        (if skipWhitespace then (s.text.drop i.toNat).takeWhile isspace else []).length := by
  cases skipWhitespace with
  | false =>
    exact ⟨i, s, (Asks.pure i s).congr Iff.rfl (by simp), SocketStream.Grown.refl s, hl, rfl⟩
  | true =>
    have hend1 := hend.resolve_right nofun
    obtain ⟨j, s', hskip, hgrown, hlook, hj⟩ := skip_returns isspace hl hend1
    refine ⟨j, s', (asks_skipSpace enforced hl hend1 hskip).congr Iff.rfl ?_, hgrown, hlook, hj⟩
    exact ⟨fun h _ => h, fun h => h rfl⟩

/-- `nextLine` takes the last byte of the line, which must have one. -/
theorem asks_nextLine {s : SocketStream} {c c' : Cursor} {skipWhitespace : Bool} {w : Bytes}
    (h : Tracks s c) (hc : c.nextLine skipWhitespace = .ok (w, c')) (hend : c'.pos ≤ 2 ^ 32) :
    ∃ s', Tracks s' c'.wrap ∧ Asks enforced (nextLine enforced skipWhitespace) s (.ok w s')
      (c.rawLine skipWhitespace ≠ []) (skipWhitespace = true → VisibleLegal c.rest) := by
  obtain ⟨s', hret, htr⟩ := SocketStream.nextLine_wraps h hc hend
  obtain ⟨hle, hw⟩ := Cursor.guarded_eq_ok hc
  obtain ⟨rfl, rfl⟩ := Prod.mk.inj hw
  obtain ⟨s1, hgrab, hgrown1, hlook1⟩ := start_returns h
  have htext1 : s1.text = c.text := hgrown1.text.trans h.text
  have hrest : s1.text.drop s.pos.toNat = c.rest := by rw [htext1, h.pos]; rfl
  -- Up to the start of the line.
  obtain ⟨j, s2, hscan, hgrown2, hlook2, hj⟩ := asks_lineStart enforced
    skipWhitespace hlook1 (by
      cases skipWhitespace with
      | false => exact .inr rfl
      | true =>
        simp only [if_true] at hend
        rw [hrest, h.pos]
        exact .inl (by omega))
  rw [hrest, h.pos] at hj
  rw [hrest] at hscan
  have htext2 : s2.text = c.text := hgrown2.text.trans htext1
  have hline : lineOf newline (s2.text.drop j.toNat) = c.rawLine skipWhitespace := by
    rw [hj, htext2, ← List.drop_drop, Cursor.rawLine]
    cases skipWhitespace with
    | false => rfl
    | true => exact congrArg (lineOf newline) (drop_length_takeWhile isspace c.rest)
  -- Over the line.
  have hlen : (c.rawLine skipWhitespace).length
      = (lineOf newline (c.rest.drop (if skipWhitespace then c.rest.takeWhile isspace
          else []).length)).length := by
    rw [← hline, hj, htext2, ← List.drop_drop]
    rfl
  have hinside := Cursor.nextLine_pos_le skipWhitespace hle
  simp only at hend hinside
  have hend2 : j.toNat + (lineOf newline (s2.text.drop j.toNat)).length < 2 ^ 32 := by
    rw [hline, hlen, hj]
    omega
  obtain ⟨k, s3, hskip, hgrown3, hlook3, hk⟩ := skipLine_returns hlook2 hend2
  rw [hline] at hk
  have htext3 : s3.text = c.text := hgrown3.text.trans htext2
  have hbuf : k.toNat ≤ s3.buffer.length :=
    SocketStream.le_buffer_of_looked hlook3 (by rw [htext3, hk, hlen, hj]; exact hinside)
  have hsub : (k - j).toNat = k.toNat - j.toNat := UInt32.toNat_sub_of_le _ _ (by
    rw [UInt32.le_iff_toNat_le]; omega)
  -- The substring is the line.
  have hraw : (s3.buffer.drop j.toNat).take (k - j).toNat = c.rawLine skipWhitespace := by
    have htake := SocketStream.substr_buffer (s := s3) (i := j.toNat) (n := (k - j).toNat)
      (by omega)
    rw [substr, if_pos (by omega)] at htake
    rw [Except.ok.inj htake, hgrown3.text, hsub, hk, Nat.add_sub_cancel_left, ← hline,
      take_length_lineOf]
  have hcall := callSubstr_returns enforced
    (show j.toNat ≤ s3.buffer.length by omega) (k - j).toNat { s3 with pos := k + 1 }
  rw [hraw] at hcall
  refine ⟨s', htr, Asks.of_exists ?_ (checks_nextLine skipWhitespace) hret⟩
  exact ⟨_, Asks.congr (Asks.get_bind (Asks.lift_bind hgrab (Asks.bind hscan (Asks.bind
    (asks_skipLine enforced hlook2 hend2 hskip) (Asks.modify_bind (Asks.get_bind
      (Asks.bind_of_returns hcall (asks_popCR enforced _ _)))))))) (by simp) (by simp)⟩

/-- `remaining` asks for nothing. -/
theorem unviolated_remaining {s : SocketStream} {c : Cursor} (h : Tracks s c)
    (hpos : c.pos ≤ c.text.length) : Prog.Unviolated (remaining enforced) s := by
  obtain ⟨s1, hgrab, hgrown1, hlook1⟩ := start_returns h
  have hin : s.pos.toNat ≤ s1.buffer.length :=
    SocketStream.le_buffer_of_looked hlook1 (by rw [hgrown1.text, h.text, h.pos]; exact hpos)
  unfold remaining
  refine Prog.unviolated_bind_of_returns ((Prog.returns_get s _).mpr rfl) ?_
  refine Prog.unviolated_bind_of_returns hgrab.lift ((Prog.unviolated_lift _ _).bind ?_)
  -- However far the loop runs, the substring starts where the cursor stood.
  intro _ s2 hjump
  obtain ⟨_, heq, -, -, hbuf⟩ := jumpToEnd_safe (s := s1)
    (by rw [hgrown1.pos]; exact hlook1) _ (Prog.returns_lift_ok.mp hjump)
  cases heq
  refine Prog.unviolated_bind_of_returns ((Prog.returns_get s2 _).mpr rfl) ?_
  exact Prog.unviolated_of_returns (callSubstr_returns enforced (hin.trans hbuf) _ _)

/-- `passedBuffer` asks for nothing. -/
theorem asks_passedBuffer {s : SocketStream} {c : Cursor} (h : Tracks s c) :
    Asks enforced (passedBuffer enforced) s (.ok c.passedBuffer s) True True := by
  have hsub := callSubstr_returns enforced (Nat.zero_le s.buffer.length)
    s.pos.toNat s
  exact (Asks.get_bind (Asks.of_returns_ok hsub)).of_checks checks_passedBuffer
    (SocketStream.passedBuffer_returns h)

end Checked

end Evaluation
