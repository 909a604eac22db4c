import Evaluation.Overlong
import Evaluation.ParserRefines
import Evaluation.Reply

namespace Evaluation

open Lib HTTPWorker

/-!
# The Content-Length gate

`HTTPWorker::run` lets a request with a body pass when `stoul` of its `content-length`, cut to 32
bits, is the number of body bytes.  That is a wider gate than "a decimal number that is the
length": `stoul` skips blanks, takes a sign and ignores what follows the digits, and the cut
makes it a comparison modulo 2³².  And what it refuses it quotes in a JSON text, which `dump`
does not build from bytes that are not UTF-8.

* `checkParsed_missing`, `checkParsed_passes`, `checkParsed_fails` — the three ways of the gate;
* `lengthGate_iff` — when it does what its error messages promise.
-/

/-- The name of the header. -/
def contentLength : Bytes := bytes "content-length"

/-- The header is a decimal number, and that is the length of the body. -/
def StatesLength (header body : Bytes) : Prop :=
  header ≠ [] ∧ (∀ c ∈ header, isdigit c = true) ∧ decimal header = body.length

/-- The header passes the comparison that `run` makes. -/
def PassesLength (header body : Bytes) : Prop :=
  ∃ n, stoul header = .ok n ∧ n % 2 ^ 32 = body.length

/-- `run` calls the handler that the resource names, whatever comes of what that sends. -/
def Dispatches (lib : Library) (worker : HTTPWorker) (p : Process) (request : HTTPRequest) :
    Prop :=
  (worker.run lib).Settles p fun p' =>
    p.trace ++ [.dispatched (handlerMapper request.resource) request] <+: p'.trace

/-- `run` hands a response with this code to `send`, and calls no handler. -/
def Refuses (lib : Library) (worker : HTTPWorker) (p : Process) (code : UInt32) : Prop :=
  (worker.run lib).Settles p fun p' =>
    ∃ response, response.code = code ∧ p'.trace = p.trace ++ [.handed response]

/-- **What the gate is for**: a request with no `content-length` is refused with 411, one whose
    `content-length` is not the length of its body with 400, and the others are dispatched. -/
def LengthGate (lib : Library) (worker : HTTPWorker) (p : Process) (request : HTTPRequest) :
    Prop :=
  (request.headers.lookup contentLength = none → Refuses lib worker p 411) ∧
  ∀ header, request.headers.lookup contentLength = some header →
    (StatesLength header request.body → Dispatches lib worker p request) ∧
    (¬ StatesLength header request.body → Refuses lib worker p 400)

/-! ### The three ways -/

/-- A body with no length is refused with 411. -/
theorem checkParsed_missing {request : HTTPRequest} (json : Nlohmann)
    (hversion : request.version = bytes "HTTP/1.1") (hbody : request.body ≠ [])
    (hmissing : request.headers.lookup contentLength = none) :
    checkParsed json request = .error (HTTPResponse.makeErrorResponse json 411
      (bytes "Length Required")
      (bytes "Content-Length header must be specified when sending a request body")) := by
  unfold checkParsed
  rw [if_neg (not_not.mpr hversion), if_neg (by rwa [List.isEmpty_iff]), ← contentLength, hmissing]

/-- A header that passes the comparison lets the request through. -/
theorem checkParsed_passes {request : HTTPRequest} (json : Nlohmann) {header : Bytes}
    (hversion : request.version = bytes "HTTP/1.1") (hbody : request.body ≠ [])
    (hheader : request.headers.lookup contentLength = some header)
    (hpass : PassesLength header request.body) : checkParsed json request = .ok request := by
  obtain ⟨n, hn, hlen⟩ := hpass
  unfold checkParsed
  rw [if_neg (not_not.mpr hversion), if_neg (by rwa [List.isEmpty_iff]), ← contentLength, hheader]
  dsimp only
  rw [hn]
  dsimp only
  rw [UInt32.toNat_ofNat', if_neg (not_not.mpr hlen)]

/-- The refusal quotes the header between ASCII texts. -/
theorem checkParsed_fails {request : HTTPRequest} (json : Nlohmann) {header : Bytes}
    (hversion : request.version = bytes "HTTP/1.1") (hbody : request.body ≠ [])
    (hheader : request.headers.lookup contentLength = some header)
    (hfail : ¬ PassesLength header request.body) :
    ∃ msg, checkParsed json request = .error (HTTPResponse.makeErrorResponse json 400
      (bytes "Bad Request") msg) ∧ isUtf8 msg = isUtf8 header := by
  unfold checkParsed
  rw [if_neg (not_not.mpr hversion), if_neg (by rwa [List.isEmpty_iff]), ← contentLength, hheader]
  dsimp only
  cases hn : stoul header with
  | error e =>
    refine ⟨_, rfl, ?_⟩
    rw [isUtf8_append_ascii (by decide +kernel), isUtf8_ascii_append (by decide +kernel)]
  | ok n =>
    dsimp only
    rw [UInt32.toNat_ofNat', if_pos fun hlen => hfail ⟨n, hn, hlen⟩]
    refine ⟨_, rfl, ?_⟩
    -- Everything in the text but the header is ASCII.
    have hdecimal : ∀ c ∈ toDecimal request.body.length, c < 0x80 :=
      fun c hc => ascii_of_isdigit c (isdigit_of_mem_toDecimal hc)
    rw [isUtf8_append_ascii hdecimal, isUtf8_append_ascii (by decide +kernel),
      isUtf8_ascii_append (by decide +kernel)]

/-- What `run` lets pass to a handler. -/
def Admitted (request : HTTPRequest) : Prop :=
  request.version = bytes "HTTP/1.1" ∧ (request.body = [] ∨
    ∃ header, request.headers.lookup contentLength = some header ∧
      PassesLength header request.body)

/-- An admitted request passes. -/
theorem checkParsed_admitted {request : HTTPRequest} (json : Nlohmann) (h : Admitted request) :
    checkParsed json request = .ok request := by
  obtain ⟨hversion, hbody | ⟨header, hheader, hpass⟩⟩ := h
  · unfold checkParsed
    rw [if_neg (not_not.mpr hversion), if_pos (by rw [hbody]; rfl)]
  · by_cases hbody : request.body = []
    · unfold checkParsed
      rw [if_neg (not_not.mpr hversion), if_pos (by rw [hbody]; rfl)]
    · exact checkParsed_passes json hversion hbody hheader hpass

/-- Every refusal is an error response. -/
theorem checkParsed_refused {request : HTTPRequest} (json : Nlohmann) (h : ¬ Admitted request) :
    ∃ response, checkParsed json request = .error response ∧
      ∀ r, response = .ok r → r.code ≠ 200 := by
  -- None of the refusals has the code 200.
  have herror : ∀ {code : UInt32} {status msg : Bytes}, code ≠ 200 → ∀ r,
      HTTPResponse.makeErrorResponse json code status msg = .ok r → r.code ≠ 200 := by
    intro code status msg hcode r hr
    rw [makeErrorResponse_code hr]
    exact hcode
  by_cases hversion : request.version = bytes "HTTP/1.1"
  · have hbody : request.body ≠ [] := fun hbody => h ⟨hversion, .inl hbody⟩
    cases hheader : request.headers.lookup contentLength with
    | none => exact ⟨_, checkParsed_missing json hversion hbody hheader, herror (by decide)⟩
    | some header =>
      have hfail : ¬ PassesLength header request.body :=
        fun hpass => h ⟨hversion, .inr ⟨header, hheader, hpass⟩⟩
      obtain ⟨msg, hcheck, -⟩ := checkParsed_fails json hversion hbody hheader hfail
      exact ⟨_, hcheck, herror (by decide)⟩
  · have hcheck : checkParsed json request = .error (HTTPResponse.makeErrorResponse json 505
        (bytes "HTTP Version Not Supported") (bytes "HTTP/1.1 Must be Used.")) := by
      unfold checkParsed
      rw [if_pos hversion]
    exact ⟨_, hcheck, herror (by decide)⟩

/-! ### The gate -/

/-- A header that states the length passes, since a body that was read is shorter than 2³². -/
theorem passesLength_of_states {header body : Bytes} (h : StatesLength header body)
    (hlen : body.length < 2 ^ 32) : PassesLength header body := by
  obtain ⟨hne, hdigits, hvalue⟩ := h
  refine ⟨decimal header, ?_, ?_⟩
  · have hstoul := stoul_digits header [] hne hdigits (by simp)
    rw [List.append_nil, if_neg (by omega)] at hstoul
    exact hstoul
  · rw [hvalue]
    exact Nat.mod_eq_of_lt hlen

/-- No run refuses a request and dispatches it. -/
theorem not_refuses_of_dispatches {lib : Library} {worker : HTTPWorker} {p : Process}
    {request : HTTPRequest} {code : UInt32} (h : Dispatches lib worker p request) :
    ¬ Refuses lib worker p code := by
  intro hrefuses
  -- The trace starts with the call of a handler, or with a response.
  obtain ⟨n, hpre, response, -, htrace⟩ := (h.and hrefuses).exists
  rw [htrace, List.prefix_append_right_inj] at hpre
  cases (List.cons_prefix_cons.mp hpre).1

section

variable {lib : Library} {worker : HTTPWorker} {p : Process} {request : HTTPRequest}
  {s : SocketStream}

/-- What passes the checks is dispatched. -/
theorem dispatches_of_check
    (hparse : parseRequest.Returns (SocketStream.ofSocket (worker.socket.recvs p.world))
      (.ok (some request) s)) (hcheck : checkParsed lib.json request = .ok request) :
    Dispatches lib worker p request := by
  obtain ⟨worker', p', htrace, hrun⟩ := run_of_parse hparse
  refine hrun (fun p'' => _ <+: p''.trace) ?_
  unfold answer
  rw [checkRequest, hcheck, ← htrace]
  exact (dispatch_dispatched lib worker' request p').settles

/-- What does not pass is refused, with nothing else in the trace. -/
theorem refuses_of_check
    (hparse : parseRequest.Returns (SocketStream.ofSocket (worker.socket.recvs p.world))
      (.ok (some request) s)) {code : UInt32} {response : HTTPResponse}
    (hcode : response.code = code)
    (hcheck : checkParsed lib.json request = .error (.ok response)) :
    Refuses lib worker p code := by
  obtain ⟨worker', p', htrace, hrun⟩ := run_of_parse hparse
  refine hrun (fun p'' => ∃ response, response.code = code ∧
    p''.trace = p.trace ++ [.handed response]) ?_
  unfold answer
  rw [checkRequest, hcheck, ← htrace]
  refine (reply_handed lib worker' response p').settles.mono fun q hq => ?_
  exact ⟨response, hcode, hq⟩

/-- A response that cannot be built is not handed to `send`. -/
theorem not_refuses_of_check
    (hparse : parseRequest.Returns (SocketStream.ofSocket (worker.socket.recvs p.world))
      (.ok (some request) s)) {e : Exn} (hcheck : checkParsed lib.json request = .error (.error e))
    (code : UInt32) : ¬ Refuses lib worker p code := by
  obtain ⟨worker', p', htrace, hrun⟩ := run_of_parse hparse
  have hsame : (worker.run lib).Settles p fun q => q.trace = p.trace := by
    refine hrun (fun p'' => p''.trace = p.trace) ?_
    unfold answer
    rw [checkRequest, hcheck, ← htrace]
    exact Prog.Ends.settles ((reply_uncaught lib worker' e p').mono fun o ho => by rw [ho]; rfl)
  intro hrefuses
  obtain ⟨n, hq, response, -, hresponse⟩ := (hsame.and hrefuses).exists
  have hlen := congrArg List.length (hq.symm.trans hresponse)
  rw [List.length_append] at hlen
  exact absurd hlen (by simp)

/-- **The Content-Length gate** does what it is for if and only if the header is missing, or states
    the length of the body, or fails the comparison and is valid UTF-8. -/
theorem lengthGate_iff (hdoc : lib.json.Documented)
    (hparse : parseRequest.Returns (SocketStream.ofSocket (worker.socket.recvs p.world))
      (.ok (some request) s))
    (hversion : request.version = bytes "HTTP/1.1") (hbody : request.body ≠ []) :
    LengthGate lib worker p request ↔
      ∀ header, request.headers.lookup contentLength = some header →
        StatesLength header request.body ∨
          (¬ PassesLength header request.body ∧ isUtf8 header = true) := by
  have hshort := (parseRequest_short hparse).2
  unfold LengthGate
  cases hheader : request.headers.lookup contentLength with
  | none =>
    -- The 411 response quotes nothing of the request.
    have hstatus : isUtf8 (bytes "Length Required") = true := by decide +kernel
    have hmsg : isUtf8 (bytes "Content-Length header must be specified when sending a request body")
        = true := by decide +kernel
    obtain ⟨response, hresponse, hcode⟩ := makeErrorResponse_ok hdoc 411 hstatus hmsg
    have hcheck := checkParsed_missing lib.json hversion hbody hheader
    rw [hresponse] at hcheck
    simp only [reduceCtorEq, IsEmpty.forall_iff, implies_true, and_true, iff_true, forall_const]
    exact refuses_of_check hparse hcode hcheck
  | some header =>
    simp only [reduceCtorEq, IsEmpty.forall_iff, true_and, Option.some.injEq, forall_eq']
    by_cases hpass : PassesLength header request.body
    · -- The request is dispatched.
      have hdispatch : Dispatches lib worker p request :=
        dispatches_of_check hparse (checkParsed_passes lib.json hversion hbody hheader hpass)
      have hrefuse : ¬ Refuses lib worker p 400 := not_refuses_of_dispatches hdispatch
      simp only [hdispatch, hrefuse, hpass, implies_true, true_and, imp_false, not_not,
        not_true_eq_false, false_and, or_false]
    · have hstates : ¬ StatesLength header request.body :=
        fun h => hpass (passesLength_of_states h hshort)
      obtain ⟨msg, hcheck, hmsg⟩ := checkParsed_fails lib.json hversion hbody hheader hpass
      simp only [hstates, hpass, IsEmpty.forall_iff, true_and, not_false_eq_true, false_or,
        forall_const]
      cases hutf8 : isUtf8 header with
      | true =>
        -- The refusal, which quotes the header, is built and handed over.
        have hstatus : isUtf8 (bytes "Bad Request") = true := by decide +kernel
        obtain ⟨response, hresponse, hcode⟩ :=
          makeErrorResponse_ok hdoc 400 hstatus (hmsg.trans hutf8)
        rw [hresponse] at hcheck
        exact iff_of_true (refuses_of_check hparse hcode hcheck) rfl
      | false =>
        -- `dump` throws while the refusal is built, and nobody catches that.
        rw [makeErrorResponse_throws hdoc 400 (hmsg.trans hutf8)] at hcheck
        exact iff_of_false (not_refuses_of_check hparse hcheck 400) Bool.false_ne_true

end

/-- The plain JSON library, and the entries of a map in an order that choice picks. -/
noncomputable def Library.plain : Library where
  json := .plain
  order hs := hs.entries.toList
  lists hs := hs.entries.coe_toList

/-- A process that serves one client, on descriptor 4, who takes byte after byte. -/
def servingClient (recvs : List RecvResult) : Process where
  world :=
    { descriptors :=
        Function.update (fun _ => none) 4 (some (.fresh 8080 ⟨recvs, .const (.sent 1)⟩))
      portsInUse := ∅
      answers := {} }
  queryID := 0
  trace := []

/-- The text of a request with the given length and five bytes of body. -/
def feedbackText (length : Bytes) : Bytes :=
  bytes "POST /v0/SubmitFeedback HTTP/1.1\r\nContent-Length: " ++ length ++ bytes "\r\n\r\nhello"

/-- That request. -/
def feedback (length : Bytes) : HTTPRequest where
  method := .POST
  resource := bytes "/v0/SubmitFeedback"
  version := bytes "HTTP/1.1"
  headers := (∅ : Headers).insert contentLength length
  body := bytes "hello"

/-- A request that states its length. -/
theorem lengthGate_iff_states :
    LengthGate Library.plain ⟨.ofFd 4⟩ (servingClient [some (feedbackText (bytes "5"))])
      (feedback (bytes "5")) ↔
    ∀ header, (feedback (bytes "5")).headers.lookup contentLength = some header →
      StatesLength header (feedback (bytes "5")).body ∨
        (¬ PassesLength header (feedback (bytes "5")).body ∧ isUtf8 header = true) :=
  lengthGate_iff Nlohmann.plain_documented ⟨200, rfl⟩ rfl (by decide)

/-- Five bytes of body pass with the length `5x`: the request is parsed, has the right version and
    a body, and a handler is called. -/
theorem lengthGate_counterexample :
    (∃ s, parseRequest.Returns (SocketStream.ofSocket [some (feedbackText (bytes "5x"))])
      (.ok (some (feedback (bytes "5x"))) s)) ∧
    ¬ LengthGate Library.plain ⟨.ofFd 4⟩ (servingClient [some (feedbackText (bytes "5x"))])
      (feedback (bytes "5x")) := by
  have hparse : parseRequest.Returns (SocketStream.ofSocket [some (feedbackText (bytes "5x"))])
      (.ok (some (feedback (bytes "5x"))) _) := ⟨200, rfl⟩
  refine ⟨⟨_, hparse⟩, ?_⟩
  intro hgate
  have hheader : (feedback (bytes "5x")).headers.lookup contentLength = some (bytes "5x") :=
    Finmap.lookup_insert _
  -- `stoul` reads the 5 and leaves the x.
  have hpass : PassesLength (bytes "5x") (feedback (bytes "5x")).body :=
    ⟨5, by decide +kernel, by decide +kernel⟩
  have hstates : ¬ StatesLength (bytes "5x") (feedback (bytes "5x")).body := by
    unfold StatesLength
    decide +kernel
  have hdispatch : Dispatches Library.plain ⟨.ofFd 4⟩
      (servingClient [some (feedbackText (bytes "5x"))]) (feedback (bytes "5x")) :=
    dispatches_of_check hparse (checkParsed_passes _ rfl (by decide) hheader hpass)
  exact not_refuses_of_dispatches hdispatch ((hgate.2 _ hheader).2 hstates)

end Evaluation
