import Evaluation.Resilience

namespace Evaluation

open Lib HTTPWorker

/-!
# One request, one answer

* `Exchange` — what a request leaves when its answer is complete: the events in the trace, and
  the counter of `v0getQueryID`;
* `answer_exchange` — answering leaves an exchange behind, or is cut short by an exception before
  anything is handed to `send`;
* `run_exchange` — hence so does every run of `HTTPWorker::run` that returns;
* `run_answers_once` — one response, an effect only for a request that passes the checks, and one
  report to Link Analysis at most, behind the response.
-/

/-- **A complete answer** to what was read: the counter before and after it, and the events that
    it leaves. -/
inductive Exchange (json : Nlohmann) (out : Option HTTPRequest) (id : UInt32) :
    UInt32 → List Event → Prop where
  | refused {response : HTTPResponse} (hcheck : checkRequest json out = .error (.ok response)) :
    Exchange json out id id [.handed response]
  | answered {request : HTTPRequest} {handler : Handler} {response : HTTPResponse}
      (hcheck : checkRequest json out = .ok request)
      (hhandler : handlerMapper request.resource = handler)
      (hother : handler ≠ .v0getQueryID ∧ handler ≠ .v0reportSearchResults) :
    Exchange json out id id [.dispatched handler request, .handed response]
  | numbered {request : HTTPRequest} {response : HTTPResponse}
      (hcheck : checkRequest json out = .ok request)
      (hhandler : handlerMapper request.resource = .v0getQueryID)
      (hresponse : queryIDResponse json id = .ok response) :
    Exchange json out id (id + 1) [.dispatched .v0getQueryID request, .handed response]
  | rejected {request : HTTPRequest} {response : HTTPResponse}
      (hcheck : checkRequest json out = .ok request)
      (hhandler : handlerMapper request.resource = .v0reportSearchResults)
      (hlink : reportedLink json request = .error (.ok response)) :
    Exchange json out id id [.dispatched .v0reportSearchResults request, .handed response]
  | reported {request : HTTPRequest} {link : Bytes}
      (hcheck : checkRequest json out = .ok request)
      (hhandler : handlerMapper request.resource = .v0reportSearchResults)
      (hlink : reportedLink json request = .ok link) :
    Exchange json out id id [.dispatched .v0reportSearchResults request, .handed reportedResponse]
  | forwarded {request report : HTTPRequest} {link : Bytes}
      (hcheck : checkRequest json out = .ok request)
      (hhandler : handlerMapper request.resource = .v0reportSearchResults)
      (hlink : reportedLink json request = .ok link) (hne : link ≠ [])
      (hreport : linkRequest json link = .ok report) :
    Exchange json out id id
      [.dispatched .v0reportSearchResults request, .handed reportedResponse, .forwarded report]

/-- An answer that an exception has ended before anything is handed to `send`. -/
inductive CutShort : List Event → Prop where
  | silent : CutShort []
  | dispatched (handler : Handler) (request : HTTPRequest) : CutShort [.dispatched handler request]

/-- The events that have been added to the trace, and what the counter has become. -/
structure Leaves (p : Process) (events : List Event) (id : UInt32) (p' : Process) : Prop where
  trace : p'.trace = p.trace ++ events
  queryID : p'.queryID = id

/-- One part of a program after the other. -/
theorem Leaves.trans {p p' p'' : Process} {events events' : List Event} {id id' : UInt32}
    (h : Leaves p events id p') (h' : Leaves p' events' id' p'') :
    Leaves p (events ++ events') id' p'' :=
  ⟨by rw [h'.trace, h.trace, List.append_assoc], h'.queryID⟩

/-- What answering leaves: a complete answer if it returns, and otherwise one too or one that was
    cut short. -/
def Answered {α : Type} (json : Nlohmann) (out : Option HTTPRequest) (p : Process) :
    Outcome Halt Process α → Prop
  | .ok _ p' => ∃ events, Exchange json out p.queryID p'.queryID events ∧
      p'.trace = p.trace ++ events
  | .error _ p' => ∃ events, (CutShort events ∨ ∃ id, Exchange json out p.queryID id events) ∧
      p'.trace = p.trace ++ events

section

variable {lib : Library}

/-! ### The parts of an answer -/

/-- An exchange that has been left behind is an answer. -/
theorem Answered.of_leaves {α : Type} {json : Nlohmann} {out : Option HTTPRequest} {p : Process}
    {events : List Event} {id : UInt32} {o : Outcome Halt Process α}
    (h : Exchange json out p.queryID id events) (ho : Leaves p events id o.state) :
    Answered json out p o := by
  cases o with
  | ok a p' =>
    obtain ⟨htrace, rfl⟩ := ho
    exact ⟨events, h, htrace⟩
  | error halt p' => exact ⟨events, .inr ⟨id, h⟩, ho.trace⟩

/-- A response that is sent leaves one event. -/
theorem send_leaves (worker : HTTPWorker) (response : HTTPResponse) (p : Process) :
    (worker.send lib (.ok response)).Throughout p (Leaves p [.handed response] p.queryID) := by
  unfold send
  rw [throughout_orUncaught_ok_bind, throughout_record_bind]
  exact (throughout_inWorld _ _).mono fun _ h => ⟨h.1, h.2⟩

/-- A response that can be built leaves one event. -/
theorem reply_leaves (worker : HTTPWorker) (response : HTTPResponse) (p : Process) :
    (worker.reply lib (.ok response)).Throughout p (Leaves p [.handed response] p.queryID) := by
  have hsend := @send_leaves lib worker response p
  exact hsend.bind fun _ p' hp' _ => hsend.of_returns hp'

/-- What the exchange with Link Analysis leaves: nothing, or a report. -/
def Forwards (json : Nlohmann) (link : Bytes) (p p' : Process) : Prop :=
  Leaves p [] p.queryID p' ∨
    ∃ report, linkRequest json link = .ok report ∧ Leaves p [.forwarded report] p.queryID p'

/-- A report leaves one event, or none. -/
theorem forward_leaves (link : Bytes) (p : Process) :
    (forward lib link).Throughout p (Forwards lib.json link p) := by
  have hnone : ∀ w : World, Forwards lib.json link p { p with world := w } :=
    fun w => .inl ⟨(List.append_nil _).symm, rfl⟩
  unfold forward createLink
  rw [throughout_onWorld_bind, throughout_onWorld_bind]
  have hexchange : ∀ created sock ip w, (exchangeLink lib created sock ip link).Throughout
      { p with world := w } (Forwards lib.json link p) := by
    intro created sock ip w
    unfold exchangeLink
    split
    · unfold connectLink
      rw [throughout_onWorld_bind]
      split
      · unfold sendLink
        -- The report is built before anything is sent.
        cases hreport : linkRequest lib.json link with
        | error e => exact fun _ => hnone _
        | ok report =>
          rw [throughout_orUncaught_ok_bind, throughout_record_bind]
          refine (throughout_inWorld _ _).mono fun p' h => ?_
          exact .inr ⟨report, hreport, h.1, h.2⟩
      · exact fun _ => hnone _
    · exact fun _ => hnone _
  refine (hexchange _ _ _ _).bind fun sent p' hp' n => ?_
  -- The socket is destroyed at the end, which leaves no event.
  obtain h | ⟨report, hreport, h⟩ := (hexchange _ _ _ _).of_returns hp'
  · exact .inl ⟨h.trace, h.queryID⟩
  · exact .inr ⟨report, hreport, h.trace, h.queryID⟩

/-- What the handler that reports a link leaves: its response, and perhaps the report. -/
theorem reportLink_leaves (worker : HTTPWorker) (link : Bytes) (p : Process) :
    (worker.reportLink lib link).Throughout p fun p' =>
      Leaves p [.handed reportedResponse] p.queryID p' ∨
        link ≠ [] ∧ ∃ report, linkRequest lib.json link = .ok report ∧
          Leaves p [.handed reportedResponse, .forwarded report] p.queryID p' := by
  unfold reportLink
  have hsend := @send_leaves lib worker reportedResponse p
  refine Prog.Throughout.bind (hsend.mono fun _ h => .inl h) ?_
  -- Whether the response got through or not, the link is sent on unless it is empty.
  intro sent p' hp'
  have hsent : Leaves p [.handed reportedResponse] p.queryID p' := hsend.of_returns hp'
  split
  · exact fun _ => .inl hsent
  · rename_i hne
    refine (forward_leaves link p').mono ?_
    rintro q (hq | ⟨report, hreport, hq⟩)
    · have hnothing := hsent.trans hq
      exact .inl ⟨hnothing.trace, hq.queryID.trans hsent.queryID⟩
    · have hreported := hsent.trans hq
      have hne' : link ≠ [] := fun hnil => hne (by rw [hnil]; rfl)
      exact .inr ⟨hne', report, hreport, hreported.trace, hq.queryID.trans hsent.queryID⟩

/-! ### The answer -/

section

variable {out : Option HTTPRequest} {request : HTTPRequest} {p p' : Process}

/-- A handler that sends one response. -/
theorem reply_answered {handler : Handler} {response : Except Exn HTTPResponse} {id : UInt32}
    (worker : HTTPWorker) (hcalled : Leaves p [.dispatched handler request] id p')
    (h : ∀ r, response = .ok r →
      Exchange lib.json out p.queryID id [.dispatched handler request, .handed r]) :
    (worker.reply lib response).Safe p' (Answered lib.json out p) := by
  obtain ⟨htrace, rfl⟩ := hcalled
  cases response with
  | error e =>
    refine (reply_uncaught lib worker e p').safe.mono ?_
    rintro _ rfl
    exact ⟨_, .inl (.dispatched handler request), htrace⟩
  | ok r =>
    refine (reply_leaves worker r p').safe.mono fun o ho => ?_
    exact Answered.of_leaves (h r rfl) (Leaves.trans ⟨htrace, rfl⟩ ho)

/-- The handler that reports a link. -/
theorem reportLink_answered {link : Bytes} (worker : HTTPWorker)
    (hcheck : checkRequest lib.json out = .ok request)
    (hhandler : handlerMapper request.resource = .v0reportSearchResults)
    (hlink : reportedLink lib.json request = .ok link)
    (hcalled : Leaves p [.dispatched .v0reportSearchResults request] p.queryID p') :
    (worker.reportLink lib link).Safe p' (Answered lib.json out p) := by
  have hid : p'.queryID = p.queryID := hcalled.queryID
  refine (reportLink_leaves worker link p').safe.mono ?_
  rintro o (ho | ⟨hne, report, hreport, ho⟩)
  · have hreported := hcalled.trans ho
    exact Answered.of_leaves (.reported hcheck hhandler hlink)
      ⟨hreported.trace, ho.queryID.trans hid⟩
  · have hforwarded := hcalled.trans ho
    exact Answered.of_leaves (.forwarded hcheck hhandler hlink hne hreport)
      ⟨hforwarded.trace, ho.queryID.trans hid⟩

/-- One case for each handler. -/
theorem dispatch_answered (worker : HTTPWorker) (hcheck : checkRequest lib.json out = .ok request)
    (p : Process) : (worker.dispatch lib request).Safe p (Answered lib.json out p) := by
  unfold dispatch
  rw [safe_record_bind]
  cases hhandler : handlerMapper request.resource with
  | v0getQueryID =>
    -- The counter moves on before the response is built.
    refine (Prog.safe_bind_of_ok ((Prog.returns_ofFun ..).mpr rfl) _).mpr ?_
    exact reply_answered worker ⟨rfl, rfl⟩ fun r hr => .numbered hcheck hhandler hr
  | v0reportSearchResults =>
    show (worker.v0reportSearchResults lib request).Safe _ _
    unfold v0reportSearchResults
    cases hlink : reportedLink lib.json request with
    | error response =>
      refine reply_answered worker ⟨rfl, rfl⟩ fun r hr => .rejected hcheck hhandler ?_
      rw [hlink, hr]
    | ok link => exact reportLink_answered worker hcheck hhandler hlink ⟨rfl, rfl⟩
  | v0getAutofill =>
    exact reply_answered worker ⟨rfl, rfl⟩ fun r _ => .answered hcheck hhandler ⟨nofun, nofun⟩
  | v0submitFeedback =>
    exact reply_answered worker ⟨rfl, rfl⟩ fun r _ => .answered hcheck hhandler ⟨nofun, nofun⟩
  | v0getQueryData =>
    exact reply_answered worker ⟨rfl, rfl⟩ fun r _ => .answered hcheck hhandler ⟨nofun, nofun⟩
  | v0reportMetrics =>
    exact reply_answered worker ⟨rfl, rfl⟩ fun r _ => .answered hcheck hhandler ⟨nofun, nofun⟩
  | notFound =>
    exact reply_answered worker ⟨rfl, rfl⟩ fun r _ => .answered hcheck hhandler ⟨nofun, nofun⟩

/-- **An answer** is an exchange, or an exception has cut it short. -/
theorem answer_exchange (worker : HTTPWorker) (out : Option HTTPRequest) (p : Process) :
    (worker.answer lib out).Safe p (Answered lib.json out p) := by
  unfold answer
  cases hcheck : checkRequest lib.json out with
  | ok request => exact dispatch_answered worker hcheck p
  | error response =>
    cases response with
    | error e =>
      refine (reply_uncaught lib worker e p).safe.mono ?_
      rintro _ rfl
      exact ⟨[], .inl .silent, (List.append_nil _).symm⟩
    | ok r =>
      refine (reply_leaves worker r p).safe.mono fun o ho => ?_
      exact Answered.of_leaves (.refused hcheck) ho

end

/-- **However `run` ends**, it has answered the request that it read, or left nothing. -/
theorem run_exchange {worker : HTTPWorker} {p : Process} {o : Outcome Halt Process HTTPWorker}
    (h : (worker.run lib).Returns p o) :
    (∃ out s, parseRequest.Returns (SocketStream.ofSocket (worker.socket.recvs p.world))
      (.ok out s) ∧ Answered lib.json out p o) ∨
    ∃ halt p', o = .error halt p' ∧ p'.trace = p.trace := by
  obtain ⟨s, ⟨out, hparse, hanswer⟩ | ⟨e, rfl⟩⟩ := run_cases h
  · refine .inl ⟨out, s, hparse, ?_⟩
    -- `readRequest` has changed the world only, so the answer starts with the trace of `p`.
    have hsafe : ∀ worker' w, (answer lib worker' out >>= fun _ => pure worker').Safe
        { p with world := w } (Answered lib.json out p) := by
      intro worker' w
      refine (answer_exchange worker' out { p with world := w }).bind ?_ ?_
      · intro _ p' hp'
        exact (Prog.safe_pure ..).mpr hp'
      · intro halt p' hp'
        exact hp'
    exact hsafe _ _ _ hanswer
  · exact .inr ⟨_, _, rfl, rfl⟩

/-! ### What an exchange is made of -/

/-- A response handed to `send` on the client's socket. -/
def Event.isHanded : Event → Bool
  | .handed _ => true
  | _ => false

/-- A request sent on to Link Analysis. -/
def Event.isForwarded : Event → Bool
  | .forwarded _ => true
  | _ => false

namespace Exchange

variable {json : Nlohmann} {out : Option HTTPRequest} {id id' : UInt32} {events : List Event}

/-- Of an exchange one event is the response. -/
theorem one_handed (h : Exchange json out id id' events) :
    events.countP Event.isHanded = 1 := by cases h <;> rfl

/-- At most one event is a report. -/
theorem forwarded_le_one (h : Exchange json out id id' events) :
    events.countP Event.isForwarded ≤ 1 := by
  cases h
  case forwarded => exact Nat.le_refl 1
  all_goals exact Nat.zero_le 1

/-- A report stands behind the response, at the end. -/
theorem handed_before {report : HTTPRequest} {before after : List Event}
    (h : Exchange json out id id' (before ++ .forwarded report :: after)) :
    Event.handed reportedResponse ∈ before := by
  generalize hevents : before ++ .forwarded report :: after = events at h
  have hmem : Event.forwarded report ∈ events := by
    rw [← hevents]
    exact List.mem_append_right _ (List.mem_cons_self ..)
  cases h
  case forwarded request report' link _ _ _ _ _ =>
    -- The report is the third event, so just the two others stand in front of it.
    match before, hevents with
    | [_, _], hevents =>
      cases hevents
      exact List.mem_cons_of_mem _ (List.mem_cons_self ..)
    | [_], hevents => cases hevents
    | [], hevents => cases hevents
    | _ :: _ :: _ :: _, hevents => simp at hevents
  all_goals simp at hmem

/-- What has changed the counter or left a report has passed the checks. -/
theorem admitted (h : Exchange json out id id' events)
    (heffect : id' ≠ id ∨ ∃ report, Event.forwarded report ∈ events) :
    ∃ request, out = some request ∧ Admitted request := by
  have hpassed : ∀ {request}, checkRequest json out = .ok request →
      ∃ request, out = some request ∧ Admitted request := by
    intro request hcheck
    cases out with
    | none => cases hcheck
    | some request' =>
      by_cases hadmitted : Admitted request'
      · exact ⟨request', rfl, hadmitted⟩
      · obtain ⟨response, hrefused, -⟩ := checkParsed_refused json hadmitted
        cases hrefused.symm.trans hcheck
  cases h
  case refused => simp at heffect
  all_goals exact hpassed ‹_›

/-- A request that passes is answered by the handler that its resource names. -/
theorem called {request : HTTPRequest} (h : Exchange json out id id' events)
    (hcheck : checkRequest json out = .ok request) :
    ∃ rest, events = .dispatched (handlerMapper request.resource) request :: rest := by
  -- Every other exchange begins with the call of the handler that the resource is mapped to.
  cases h
  case refused hrefused => cases hcheck.symm.trans hrefused
  case answered hcheck' hhandler _ =>
    cases hcheck.symm.trans hcheck'
    rw [hhandler]
    exact ⟨_, rfl⟩
  case forwarded hcheck' hhandler _ _ _ =>
    cases hcheck.symm.trans hcheck'
    rw [hhandler]
    exact ⟨_, rfl⟩
  all_goals
    rename_i hcheck' hhandler _
    cases hcheck.symm.trans hcheck'
    rw [hhandler]
    exact ⟨_, rfl⟩

end Exchange

/-! ### One answer -/

/-- **One response, and no effect that is not earned.**  A run that returns has handed one response
    to `send`; the counter has changed, or something has been sent on to Link Analysis, only for a
    request that was parsed and has passed the checks of `run`; and one request at most is sent
    on, behind the response. -/
theorem run_answers_once {worker worker' : HTTPWorker} {p p' : Process}
    (h : (worker.run lib).Returns p (.ok worker' p')) :
    ∃ events, p'.trace = p.trace ++ events ∧
      events.countP Event.isHanded = 1 ∧
      events.countP Event.isForwarded ≤ 1 ∧
      (∀ before report after, events = before ++ .forwarded report :: after →
        Event.handed reportedResponse ∈ before) ∧
      (p'.queryID ≠ p.queryID ∨ (∃ report, Event.forwarded report ∈ events) →
        ∃ request s, parseRequest.Returns
          (SocketStream.ofSocket (worker.socket.recvs p.world)) (.ok (some request) s) ∧
            Admitted request) := by
  -- A run that returned has not thrown out of the parser.
  obtain ⟨out, s, hparse, events, hexchange, htrace⟩ | ⟨_, _, ⟨⟩, -⟩ := run_exchange h
  refine ⟨events, htrace, hexchange.one_handed, hexchange.forwarded_le_one, ?_, ?_⟩
  · rintro before report after rfl
    exact hexchange.handed_before
  · intro heffect
    obtain ⟨request, rfl, hadmitted⟩ := hexchange.admitted heffect
    exact ⟨request, s, hparse, hadmitted⟩

end

/-- A worker returns from a harmless client if no `::send` to come is fatal. -/
theorem run_returns {lib : Library} (hdoc : lib.json.Documented) {worker : HTTPWorker}
    {p : Process} (h : Harmless lib (delivered (worker.socket.recvs p.world)))
    (hcalm : ∀ halt, ¬ FatalSend p halt) :
    ∃ worker' p', (worker.run lib).Returns p (.ok worker' p') ∧ p.world.Later p'.world := by
  obtain ⟨o, ho, hpost⟩ := run_comesBack hdoc h
  cases o with
  | ok worker' p' => exact ⟨worker', p', ho, hpost⟩
  | error halt p' => exact absurd hpost.2 (hcalm halt)

end Evaluation
