import Evaluation.Worker

namespace Evaluation

open Lib HTTPWorker

/-!
# The reply to a request

What `run` and the handlers make of what was read, apart from the sending: the response, and the
report to Link Analysis.

* `handlerResponse`, `call_cases` — what the call of a handler comes to;
* `replyTo` — the reply to what was read;
* `AnsweredTersely` — the reply is made of texts that `TCPSocket::send` can count.
-/

/-- The response of `v0getQueryID`. -/
def queryIDResponse (json : Nlohmann) (id : UInt32) : Except Exn HTTPResponse :=
  HTTPResponse.ofJson json 200 (bytes "OK") (.object [(bytes "query_ID", .unsigned id.toNat)])

/-- The response of `v0reportSearchResults` to a request that passes its checks. -/
def reportedResponse : HTTPResponse := HTTPResponse.ofStatus 200 (bytes "OK")

/-! ### The handlers -/

/-- The response of a handler. -/
def handlerResponse (json : Nlohmann) (id : UInt32) (request : HTTPRequest) :
    Handler → Except Exn HTTPResponse
  | .v0getAutofill => HTTPResponse.ofJson json 200 (bytes "OK") (.object [(bytes "suggestions",
      .array [.string (bytes "Why is RPI so cool?"), .string (bytes "I love RPI"),
        .string (bytes "Best Food Near RPI")])])
  | .v0getQueryID => queryIDResponse json id
  | .v0reportSearchResults => match reportedLink json request with
    | .error response => response
    | .ok _ => .ok reportedResponse
  | .v0submitFeedback => .ok (HTTPResponse.ofStatus 200 (bytes "OK"))
  | .v0getQueryData =>
    HTTPResponse.ofJson json 200 (bytes "OK") (.object [(bytes "queries", .array [])])
  | .v0reportMetrics => .ok (HTTPResponse.ofStatus 200 (bytes "OK"))
  | .notFound => HTTPResponse.makeErrorResponse json 404 (bytes "Not Found")
      (bytes "Resource (API function) not found")

section

variable (lib : Library) (worker : HTTPWorker) (request : HTTPRequest) (handler : Handler)

/-- **What the call of a handler comes to**: it sends its response, at once or with a new id in it,
    or goes on with the link that it has found. -/
theorem call_cases :
    (∀ id, worker.call lib request handler
      = worker.reply lib (handlerResponse lib.json id request handler)) ∨
    (handler = .v0getQueryID ∧ worker.call lib request handler = nextQueryID >>= fun id =>
      worker.reply lib (handlerResponse lib.json id request handler)) ∨
    ∃ link, handler = .v0reportSearchResults ∧ reportedLink lib.json request = .ok link ∧
      worker.call lib request handler = worker.reportLink lib link := by
  -- The response of all handlers but two depends on nothing but the request.
  cases handler with
  | v0getQueryID => exact .inr (.inl ⟨rfl, rfl⟩)
  | v0reportSearchResults =>
    show (∀ id, worker.v0reportSearchResults lib request = _) ∨ _ ∨
      ∃ link, _ ∧ _ ∧ worker.v0reportSearchResults lib request = _
    unfold v0reportSearchResults handlerResponse
    cases reportedLink lib.json request with
    | error response => exact .inl fun _ => rfl
    | ok link => exact .inr (.inr ⟨link, rfl, rfl, rfl⟩)
  | v0getAutofill => exact .inl fun _ => rfl
  | v0submitFeedback => exact .inl fun _ => rfl
  | v0getQueryData => exact .inl fun _ => rfl
  | v0reportMetrics => exact .inl fun _ => rfl
  | notFound => exact .inl fun _ => rfl

/-- A handler adds to the trace. -/
theorem grows_call : traceGrows.Held (worker.call lib request handler) := by
  obtain hcall | ⟨-, hcall⟩ | ⟨link, -, -, hcall⟩ := call_cases lib worker request handler
  · rw [hcall 0]
    exact grows_reply lib worker _
  · rw [hcall]
    refine Guarantee.Held.bind ?_ fun id => grows_reply lib worker _
    exact Guarantee.held_ofFun fun p => List.prefix_refl p.trace
  · rw [hcall]
    refine (grows_send lib worker _).bind fun _ => ?_
    split
    · exact Guarantee.held_pure ()
    · exact grows_forward lib link

/-- A handler that is called leaves that in the trace, whatever it does. -/
theorem dispatch_dispatched (p : Process) : (worker.dispatch lib request).Throughout p
    fun p' => p.trace ++ [.dispatched (handlerMapper request.resource) request] <+: p'.trace := by
  unfold dispatch
  rw [throughout_record_bind]
  exact grows_call lib worker request _ _

end

/-! ### The reply -/

/-- What a client gets: the call of a handler if its request passes the checks, the response, and
    the report to Link Analysis if it has clicked a link. -/
structure Reply where
  called : Option (Handler × HTTPRequest)
  response : HTTPResponse
  report : Option HTTPRequest

/-- The report of a handler. -/
def handlerReport (json : Nlohmann) (request : HTTPRequest) (handler : Handler) :
    Option HTTPRequest :=
  match handler, reportedLink json request with
  | .v0reportSearchResults, .ok link =>
    if link = [] then none else (linkRequest json link).toOption
  | _, _ => none

/-- The reply to what was read. -/
def replyTo (json : Nlohmann) (id : UInt32) (out : Option HTTPRequest) : Except Exn Reply :=
  match checkRequest json out with
  | .error response => response.map fun response => ⟨none, response, none⟩
  | .ok request =>
    let handler := handlerMapper request.resource
    (handlerResponse json id request handler).map fun response =>
      ⟨some (handler, request), response, handlerReport json request handler⟩

section

variable {json : Nlohmann} {out : Option HTTPRequest} {id : UInt32} {response : HTTPResponse}

/-- The reply to what does not pass the checks. -/
theorem replyTo_refused (hcheck : checkRequest json out = .error (.ok response)) :
    replyTo json id out = .ok ⟨none, response, none⟩ := by
  unfold replyTo
  rw [hcheck]
  rfl

/-- The reply to a request that does. -/
theorem replyTo_called {request : HTTPRequest} (hcheck : checkRequest json out = .ok request)
    (hresponse : handlerResponse json id request (handlerMapper request.resource) = .ok response) :
    replyTo json id out = .ok ⟨some (handlerMapper request.resource, request), response,
      handlerReport json request (handlerMapper request.resource)⟩ := by
  unfold replyTo
  rw [hcheck]
  dsimp only
  rw [hresponse]
  rfl

/-- Every reply is the one or the other. -/
theorem replyTo_cases {reply : Reply} (h : replyTo json id out = .ok reply) :
    (∃ response, checkRequest json out = .error (.ok response) ∧
        reply = ⟨none, response, none⟩) ∨
      ∃ request response, checkRequest json out = .ok request ∧
        handlerResponse json id request (handlerMapper request.resource) = .ok response ∧
          reply = ⟨some (handlerMapper request.resource, request), response,
            handlerReport json request (handlerMapper request.resource)⟩ := by
  unfold replyTo at h
  cases hcheck : checkRequest json out with
  | error response =>
    rw [hcheck] at h
    cases response with
    | error e => cases h
    | ok response =>
      cases h
      exact .inl ⟨response, rfl, rfl⟩
  | ok request =>
    rw [hcheck] at h
    dsimp only at h
    cases hresponse : handlerResponse json id request (handlerMapper request.resource) with
    | error e =>
      rw [hresponse] at h
      cases h
    | ok response =>
      rw [hresponse] at h
      cases h
      exact .inr ⟨request, response, rfl, hresponse, rfl⟩

end

/-! ### What is sent -/

/-- The text of a response. -/
def responseText (lib : Library) (response : HTTPResponse) : Bytes :=
  response.toString (lib.order response.headers)

/-- The text of a request. -/
def requestText (lib : Library) (request : HTTPRequest) : Bytes :=
  request.toString (lib.order request.headers)

/-- The `unsigned int` in which `TCPSocket::send` counts the bytes can count those of the response
    and of the report. -/
structure Reply.Terse (lib : Library) (reply : Reply) : Prop where
  response : (responseText lib reply.response).length < 2 ^ 32
  report : ∀ report, reply.report = some report → (requestText lib report).length < 2 ^ 32

/-- What was read gets a reply of such texts, whatever the next query id. -/
def AnsweredTersely (lib : Library) (out : Option HTTPRequest) : Prop :=
  ∀ id reply, replyTo lib.json id out = .ok reply → reply.Terse lib

/-- A response with no headers is written in one way only. -/
theorem responseText_ofStatus (lib : Library) (code : UInt32) (status : Bytes) :
    responseText lib (.ofStatus code status)
      = (HTTPResponse.ofStatus code status).toString [] := by
  have horder : lib.order ∅ = [] := (Multiset.coe_eq_zero _).mp (lib.lists ∅)
  show (HTTPResponse.ofStatus code status).toString (lib.order ∅) = _
  rw [horder]

/-- The order of the headers makes no difference to the length of a response. -/
theorem length_responseText (lib : Library) {response : HTTPResponse} {order : List Field}
    (ho : Lists order response.headers) :
    (responseText lib response).length = (response.toString order).length := by
  unfold responseText HTTPResponse.toString
  simp only [List.length_append, length_fieldLines (lib.lists response.headers) ho]

/-- The order of the headers makes no difference to the length of a request. -/
theorem length_requestText (lib : Library) {request : HTTPRequest} {order : List Field}
    (ho : Lists order request.headers) :
    (requestText lib request).length = (request.toString order).length := by
  unfold requestText HTTPRequest.toString
  simp only [List.length_append, length_fieldLines (lib.lists request.headers) ho]

/-- A response with a JSON body is not much longer than the body. -/
theorem length_responseText_ofJson {lib : Library} {code : UInt32} {status text : Bytes}
    {body : Json} {response : HTTPResponse} (hdump : lib.json.dump body (some 2) = .ok text)
    (h : HTTPResponse.ofJson lib.json code status body = .ok response)
    (hlen : text.length < 10 ^ 9) :
    (responseText lib response).length ≤ 100 + status.length + text.length := by
  unfold HTTPResponse.ofJson at h
  rw [hdump] at h
  cases h
  have hcode : (toDecimal code.toNat).length ≤ 10 :=
    length_toDecimal_le (by omega) (lt_trans code.toNat_lt (by norm_num))
  have hdigits : (toDecimal text.length).length ≤ 9 := length_toDecimal_le (by omega) hlen
  -- The parts of the head that are the same for every response.
  have hfixed : (bytes "Content-Length").length = 14 ∧ (bytes "Content-Type").length = 12 ∧
      (bytes "application/json").length = 16 ∧ (bytes "HTTP/1.1").length = 8 ∧
      (bytes ": ").length = 2 ∧ crlf.length = 2 := by decide +kernel
  rw [length_responseText lib (lists_jsonHeaders text)]
  simp only [HTTPResponse.toString, HTTPResponse.ofStatus, List.flatMap_cons, List.flatMap_nil,
    fieldLine, List.length_append, List.length_nil, List.length_singleton, hfixed]
  omega

/-- A request is answered tersely whose handler answers with a bare 200. -/
theorem answeredTersely_of_bare {lib : Library} {request : HTTPRequest}
    (hcheck : checkRequest lib.json (some request) = .ok request)
    (hhandler : handlerMapper request.resource = .v0submitFeedback) :
    AnsweredTersely lib (some request) := by
  intro id reply hreply
  have hbare : replyTo lib.json id (some request) = _ :=
    @replyTo_called lib.json (some request) id (.ofStatus 200 (bytes "OK")) request hcheck
      (by rw [hhandler]; rfl)
  cases hreply.symm.trans hbare
  refine ⟨?_, fun report hreport => ?_⟩
  · rw [responseText_ofStatus]
    decide +kernel
  · have hnone : handlerReport lib.json request (handlerMapper request.resource) = none := by
      rw [hhandler]
      rfl
    cases hnone.symm.trans hreport

namespace AnsweredTersely

variable {lib : Library} {out : Option HTTPRequest}

/-- A refusal is short. -/
theorem refused (h : AnsweredTersely lib out) {response : HTTPResponse}
    (hcheck : checkRequest lib.json out = .error (.ok response)) :
    (responseText lib response).length < 2 ^ 32 :=
  (h 0 _ (replyTo_refused hcheck)).response

variable {request : HTTPRequest} (h : AnsweredTersely lib out)
  (hcheck : checkRequest lib.json out = .ok request)

include h hcheck

/-- The response of a handler is short. -/
theorem called {id : UInt32} {response : HTTPResponse}
    (hresponse : handlerResponse lib.json id request (handlerMapper request.resource)
      = .ok response) : (responseText lib response).length < 2 ^ 32 :=
  (h id _ (replyTo_called hcheck hresponse)).response

/-- The handler that reports a link sends two texts. -/
theorem reported (hhandler : handlerMapper request.resource = .v0reportSearchResults)
    {link : Bytes} (hlink : reportedLink lib.json request = .ok link) :
    (responseText lib reportedResponse).length < 2 ^ 32 ∧
      ∀ report, link ≠ [] → linkRequest lib.json link = .ok report →
        (requestText lib report).length < 2 ^ 32 := by
  have hresponse : handlerResponse lib.json 0 request (handlerMapper request.resource)
      = .ok reportedResponse := by
    rw [hhandler]
    simp only [handlerResponse, hlink]
  have hterse := h 0 _ (replyTo_called hcheck hresponse)
  refine ⟨hterse.response, fun report hne hreport => hterse.report report ?_⟩
  simp only [hhandler, handlerReport, hlink, if_neg hne, hreport]
  rfl

end AnsweredTersely

end Evaluation
