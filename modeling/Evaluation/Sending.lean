import Evaluation.TCPSocket

namespace Evaluation

open Lib

/-!
# Partial sends

`TCPSocket::send` calls `::send` with what is left of the message, until all has been taken, a call
fails, or, without `full_msg`, one call has been made.  The number of bytes sent is an `unsigned
int`, which is enough for a message of fewer than 2³² bytes.

* `SendCalls` — a history of calls, each offering what the ones before it have left;
* `SendCalls.accepted` — what the kernel has taken is the beginning of the message;
* `send_exact` — `send` ends after such a history, and returns `true` if and only if the whole
  message has been taken;
* `send_endless` — a longer message it sends for ever.
-/

/-- Every `::send` to come on this descriptor returns. -/
def Descriptor.SendsReturn (d : Descriptor) : Prop :=
  .reset ∉ d.peer.sends ∧ .blocked ∉ d.peer.sends

/-- **A history of calls of `::send`** from a world on: their results, the number of bytes taken,
    and the world behind them. -/
inductive SendCalls (fd : Fd) (val : Bytes) (w : World) : List SendResult → ℕ → World → Prop where
  | start : SendCalls fd val w [] 0 w
  | sent {results : List SendResult} {k n : ℕ} {w' w'' : World}
      (h : SendCalls fd val w results k w')
      (hsend : w'.send fd (val.drop k) = (.sent n, w'')) :
      SendCalls fd val w (results ++ [.sent n]) (k + n) w''
  | failed {results : List SendResult} {k : ℕ} {w' w'' : World}
      (h : SendCalls fd val w results k w')
      (hsend : w'.send fd (val.drop k) = (.failed, w'')) :
      SendCalls fd val w (results ++ [.failed]) k w''

section

variable {fd : Fd} {w w' : World} {d : Descriptor}

/-- **A call that takes something** takes a beginning of what is offered, and at least one byte if
    there is one. -/
theorem send_sent {data : Bytes} {n : ℕ} (hd : w.descriptors fd = some d)
    (hsend : w.send fd data = (.sent n, w')) :
    n ≤ data.length ∧ (data ≠ [] → 1 ≤ n) ∧ ∃ d', w'.descriptors fd = some d' ∧
      d'.accepted = d.accepted ++ data.take n ∧ d'.peer.sends = d.peer.sends.tail := by
  obtain ⟨accepted, hworld, hresult⟩ := World.send_some hd data
  rw [hsend] at hworld hresult
  have hd' : w'.descriptors fd = some (d.afterSend accepted) := by
    rw [show w' = _ from hworld]
    exact Function.update_self ..
  obtain ⟨_, m, -, ⟨⟩, hn, hone, htaken⟩ | ⟨hother, hhead, -⟩ := hresult
  · exact ⟨hn, hone, _, hd', htaken, rfl⟩
  · exact absurd hhead.symm (hother n)

/-- **A call that fails** takes nothing. -/
theorem send_failed {data : Bytes} (hd : w.descriptors fd = some d)
    (hsend : w.send fd data = (.failed, w')) :
    d.peer.sends.head = .failed ∧ ∃ d', w'.descriptors fd = some d' ∧
      d'.accepted = d.accepted ∧ d'.peer.sends = d.peer.sends.tail := by
  obtain ⟨accepted, hworld, hresult⟩ := World.send_some hd data
  rw [hsend] at hworld hresult
  have hd' : w'.descriptors fd = some (d.afterSend accepted) := by
    rw [show w' = _ from hworld]
    exact Function.update_self ..
  obtain ⟨_, m, -, ⟨⟩, -⟩ | ⟨-, hhead, hsame⟩ := hresult
  exact ⟨hhead.symm, _, hd', hsame, rfl⟩

/-- **What the kernel has taken** is the beginning of the message; each call has used up a
    result. -/
theorem SendCalls.accepted {val : Bytes} {results : List SendResult} {k : ℕ}
    (h : SendCalls fd val w results k w') (hd : w.descriptors fd = some d) :
    k ≤ val.length ∧ ∃ d', w'.descriptors fd = some d' ∧
      d'.accepted = d.accepted ++ val.take k ∧
      d'.peer.sends = d.peer.sends.drop results.length := by
  -- By the last call: it is sent what was left, and the peer takes the head of that.
  induction h with
  | start => exact ⟨Nat.zero_le _, d, hd, (List.append_nil _).symm, rfl⟩
  | @sent results k n w' w'' _ hsend ih =>
    obtain ⟨hk, d', hd', haccepted, hleft⟩ := ih
    obtain ⟨hn, -, d'', hd'', htaken, hleft'⟩ := send_sent hd' hsend
    rw [List.length_drop] at hn
    refine ⟨by omega, d'', hd'', ?_, ?_⟩
    · rw [htaken, haccepted, List.append_assoc, List.take_add]
    · rw [hleft', hleft, Stream'.tail_drop', List.length_append, List.length_singleton]
  | @failed results k w' w'' _ hsend ih =>
    obtain ⟨hk, d', hd', haccepted, hleft⟩ := ih
    obtain ⟨-, d'', hd'', hsame, hleft'⟩ := send_failed hd' hsend
    refine ⟨hk, d'', hd'', hsame.trans haccepted, ?_⟩
    rw [hleft', hleft, Stream'.tail_drop', List.length_append, List.length_singleton]

/-- What is known before a round of the loop: it goes on only with `full_msg` while something is
    left, and each call has taken a byte at least. -/
structure BeforeRound (fd : Fd) (val : Bytes) (fullMsg : Bool) (w : World)
    (results : List SendResult) (k : ℕ) (w' : World) : Prop where
  calls : SendCalls fd val w results k w'
  again : results = [] ∨ fullMsg = true ∧ k < val.length
  count : results.length ≤ k

/-- How the loop of `send` ends: all has been taken, or the last call has failed, or there was to be
    only one; or a `::send` has ended the process or never returns.  There are no more calls than
    bytes, apart from the first. -/
def LoopEnd (fd : Fd) (val : Bytes) (fullMsg : Bool) (w : World) :
    Outcome Halt World UInt32 → Prop
  | .ok sent w' => ∃ results, SendCalls fd val w results sent.toNat w' ∧
      results.length ≤ max 1 val.length ∧
      (fullMsg = true → sent.toNat < val.length → results.getLast? = some .failed) ∧
      (fullMsg = false → results.length = 1)
  | .error _ _ => ∃ d, w.descriptors fd = some d ∧ ¬ d.SendsReturn

/-- **The loop** makes such a history. -/
theorem sendLoop_exact (hd : w.descriptors fd = some d) {val : Bytes} (fullMsg : Bool)
    (hlen : val.length < 2 ^ 32) :
    (Prog.loop (TCPSocket.sendRound fd val fullMsg) 0).Ends w (LoopEnd fd val fullMsg w) := by
  refine (TCPSocket.sendLoop_ends fd fullMsg hlen w).of_safe ?_
  refine Prog.safe_loop (fun sent w' => ∃ results, BeforeRound fd val fullMsg w results
    sent.toNat w') ?_ ⟨[], .start, .inl rfl, Nat.le_refl 0⟩
  rintro sent w₁ ⟨results, hcalls, hagain, hcount⟩
  obtain ⟨hsent, d₁, hd₁, -, hleft⟩ := hcalls.accepted hd
  -- Without `full_msg` this call is the first one, and otherwise something was left.
  have hone : ∀ result, fullMsg = false → (results ++ [result]).length = 1 := by
    intro result hfull
    rw [hagain.resolve_right (by rw [hfull]; exact fun h => Bool.false_ne_true h.1)]
    rfl
  have hbound : ∀ result, (results ++ [result]).length ≤ max 1 val.length := by
    intro result
    rw [List.length_append, List.length_singleton]
    obtain rfl | ⟨-, hmore⟩ := hagain
    · exact Nat.le_max_left ..
    · exact le_trans (by omega) (Nat.le_max_right ..)
  have hfatal : ∀ {result : SendResult}, result = .reset ∨ result = .blocked →
      result ∈ d₁.peer.sends → ¬ d.SendsReturn := by
    rintro result hresult ⟨i, hi⟩ hreturn
    rw [hleft] at hi
    have hmem : result ∈ d.peer.sends := ⟨_, hi⟩
    obtain rfl | rfl := hresult
    · exact hreturn.1 hmem
    · exact hreturn.2 hmem
  obtain ⟨-, hres⟩ := w₁.send_spec fd (val.drop sent.toNat)
  rcases hcall : w₁.send fd (val.drop sent.toNat) with ⟨result, w₂⟩
  rw [hcall] at hres
  refine (Prog.safe_bind_of_ok (TCPSocket.returns_sendCall hcall) _).mpr ?_
  cases result with
  | sent n =>
    obtain ⟨hn, hleast, -⟩ := send_sent hd₁ hcall
    rw [List.length_drop] at hn
    have hwide : (sent + UInt32.ofNat n).toNat = sent.toNat + n :=
      TCPSocket.toNat_add_ofNat (by omega)
    have hcalls' := hcalls.sent hcall
    rw [← hwide] at hcalls'
    dsimp only
    split
    · rename_i hmore
      have hn' : 1 ≤ n := hleast (by rw [ne_eq, List.drop_eq_nil_iff, not_le]; omega)
      refine (Prog.safe_pure ..).mpr ⟨_, hcalls', .inr ⟨hmore.2, hmore.1⟩, ?_⟩
      rw [List.length_append, List.length_singleton]
      omega
    · rename_i hdone
      refine (Prog.safe_pure ..).mpr ⟨_, hcalls', hbound _, ?_, hone _⟩
      exact fun hfull hlt => absurd ⟨hlt, hfull⟩ hdone
  | failed =>
    refine (Prog.safe_pure ..).mpr ⟨_, hcalls.failed hcall, hbound _, ?_, hone _⟩
    exact fun _ _ => List.getLast?_concat ..
  | reset =>
    obtain ⟨⟨⟩⟩ | ⟨_, ⟨⟩, -⟩ | ⟨-, d', hd', hcoming⟩ := hres
    rw [hd₁] at hd'
    cases hd'
    exact (Prog.safe_ofFun ..).mpr ⟨d, hd, hfatal (.inl rfl) hcoming⟩
  | blocked =>
    obtain ⟨⟨⟩⟩ | ⟨_, ⟨⟩, -⟩ | ⟨-, d', hd', hcoming⟩ := hres
    rw [hd₁] at hd'
    cases hd'
    exact (Prog.safe_ofFun ..).mpr ⟨d, hd, hfatal (.inr rfl) hcoming⟩

/-- **`send` loses and repeats nothing.**  On an open socket on which every `::send` returns it
    ends, after no more calls than the message has bytes (one for an empty message); the kernel
    has then taken a beginning of the message; the result is `true` if and only if that is all of
    it; with `full_msg` something is missing only if the last call has failed, and without it
    there has been one call. -/
theorem send_exact {sock : TCPSocket} (hfd : sock.fd = some fd)
    (hd : w.descriptors fd = some d) (hreturn : d.SendsReturn) {val : Bytes} (fullMsg : Bool)
    (hlen : val.length < 2 ^ 32) :
    (sock.send val fullMsg).Ends w fun o => ∃ returned w' results k d',
      o = .ok returned w' ∧ SendCalls fd val w results k w' ∧
      results.length ≤ max 1 val.length ∧
      w'.descriptors fd = some d' ∧ d'.accepted = d.accepted ++ val.take k ∧
      (returned = true ↔ val.take k = val) ∧
      (fullMsg = true → val.take k ≠ val → results.getLast? = some .failed) ∧
      (fullMsg = false → results.length = 1) := by
  unfold TCPSocket.send
  rw [hfd]
  refine (sendLoop_exact hd fullMsg hlen).bind ?_ ?_
  · rintro sent w' ⟨results, hcalls, hbound, hfull, hone⟩
    obtain ⟨hsent, d', hd', haccepted, -⟩ := hcalls.accepted hd
    -- The return value compares counts; what the peer has is a prefix of that length.
    have hwhole : val.take sent.toNat = val ↔ sent.toNat = val.length := by
      rw [List.take_eq_self_iff]
      omega
    apply (Prog.ends_pure ..).mpr
    refine ⟨_, w', results, sent.toNat, d', rfl, hcalls, hbound, hd', haccepted, ?_, ?_, hone⟩
    · rw [hwhole, decide_eq_true_iff]
    · intro hmode hpart
      refine hfull hmode (lt_of_le_of_ne hsent ?_)
      exact fun h => hpart (hwhole.mpr h)
  · -- A signal or a call that never returns is what `SendsReturn` excludes.
    rintro halt w' ⟨d', hd', hfatal⟩
    rw [hd] at hd'
    cases hd'
    exact absurd hreturn hfatal

end

/-- The world with a connection on descriptor 4 whose `::send` takes two bytes, then fails, and
    would go on taking bytes for ever. -/
def slowConnection : World where
  descriptors := Function.update (fun _ => none) 4
    (some (.fresh 8080 ⟨[], .cons (.sent 2) (.cons .failed (.const (.sent 9)))⟩))
  portsInUse := ∅
  answers := {}

/-- Three bytes of five are not taken. -/
theorem send_exact_slow : ∃ w' results k,
    ((TCPSocket.ofFd 4).send (bytes "hello") true).Returns slowConnection (.ok false w') ∧
      SendCalls 4 (bytes "hello") slowConnection results k w' ∧
      results.length ≤ 5 ∧ results.getLast? = some .failed := by
  have hreturn : (Descriptor.fresh 8080
      ⟨[], .cons (.sent 2) (.cons .failed (.const (.sent 9)))⟩).SendsReturn := by
    constructor
    all_goals
      rintro ⟨_ | _ | i, hi⟩
      all_goals cases hi
  have hreturns : ((TCPSocket.ofFd 4).send (bytes "hello") true).Returns slowConnection
      (.ok false _) := ⟨4, rfl⟩
  obtain ⟨_, w', results, k, d', ⟨⟩, hcalls, hbound, -, -, hwhole, hfull, -⟩ :=
    (@send_exact 4 slowConnection _ (.ofFd 4) rfl rfl hreturn (bytes "hello") true
      (by decide)).of_returns hreturns
  exact ⟨_, results, k, hreturns, hcalls, hbound, hfull rfl fun h => absurd (hwhole.mpr h) nofun⟩

/-- The other end takes some of what it is offered, for ever. -/
def Descriptor.KeepsTaking (d : Descriptor) : Prop := ∀ i, ∃ m, d.peer.sends.get i = .sent m

/-- A round for such an end and a message that the counter cannot count: it goes on. -/
theorem sendRound_goesOn {fd : Fd} {w : World} {d : Descriptor} (hd : w.descriptors fd = some d)
    (htakes : d.KeepsTaking) {val : Bytes} (hlen : 2 ^ 32 ≤ val.length) (sent : UInt32) :
    ∃ sent' w' d', (TCPSocket.sendRound fd val true sent).Returns w (.ok (.inl sent') w') ∧
      w'.descriptors fd = some d' ∧ d'.KeepsTaking := by
  obtain ⟨accepted, hworld, hresult⟩ := World.send_some hd (val.drop sent.toNat)
  rcases hcall : w.send fd (val.drop sent.toNat) with ⟨result, w'⟩
  rw [hcall] at hworld hresult
  have hd' : w'.descriptors fd = some (d.afterSend accepted) := by
    rw [show w' = _ from hworld]
    exact Function.update_self ..
  obtain ⟨n, m, -, rfl, -⟩ | ⟨hother, -⟩ := hresult
  · refine ⟨sent + UInt32.ofNat n, w', _,
      (Prog.returns_bind_of_ok (TCPSocket.returns_sendCall hcall) _).mpr ?_, hd',
      fun i => htakes (i + 1)⟩
    -- A counter of 32 bits never reaches the length, so the test of the loop never fails.
    have hless : (sent + UInt32.ofNat n).toNat < val.length :=
      lt_of_lt_of_le (UInt32.toNat_lt _) hlen
    dsimp only
    rw [if_pos ⟨hless, rfl⟩]
    exact (Prog.returns_pure ..).mpr rfl
  · obtain ⟨m, hm⟩ := htakes 0
    exact absurd hm (hother m)

/-- **A longer message is sent for ever** to an end that keeps taking: the counter never gets to the
    length. -/
theorem send_endless {sock : TCPSocket} {fd : Fd} {w : World} {d : Descriptor}
    (hfd : sock.fd = some fd) (hd : w.descriptors fd = some d) (htakes : d.KeepsTaking)
    {val : Bytes} (hlen : 2 ^ 32 ≤ val.length) (o : Outcome Halt World Bool) :
    ¬ (sock.send val true).Returns w o := by
  have hloop : ∀ o, ¬ (Prog.loop (TCPSocket.sendRound fd val true) 0).Returns w o := by
    intro o ho
    -- A last round would have to differ from the one that goes on.
    refine Prog.Returns.loop_induction (P := fun _ w' _ =>
      ∀ d, w'.descriptors fd = some d → ¬ d.KeepsTaking) ?_ ?_ ?_ ho d hd htakes
    · intro sent w' b w'' hdone d hd htakes
      obtain ⟨_, _, _, hnext, -⟩ := sendRound_goesOn hd htakes hlen sent
      cases hdone.unique hnext
    · intro sent w' halt w'' hfail d hd htakes
      obtain ⟨_, _, _, hnext, -⟩ := sendRound_goesOn hd htakes hlen sent
      cases hfail.unique hnext
    · intro sent w' sent' w'' r hnext ih d hd htakes
      obtain ⟨_, _, d', hnext', hd', htakes'⟩ := sendRound_goesOn hd htakes hlen sent
      cases hnext.unique hnext'
      exact ih d' hd' htakes'
  intro ho
  unfold TCPSocket.send at ho
  rw [hfd] at ho
  obtain ⟨sent, w', hsent, -⟩ | ⟨halt, w', hsent, -⟩ := (Prog.returns_bind ..).mp ho
  · exact hloop _ hsent
  · exact hloop _ hsent

end Evaluation
