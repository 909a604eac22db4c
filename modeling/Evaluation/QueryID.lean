import Evaluation.Exchange
import Evaluation.Survival

namespace Evaluation

open Lib HTTPWorker

/-!
# The query ids

The counter of `v0getQueryID` is a static member of the process, and 32 bits wide.  So it starts
again at 0 with every life of the component, and within one life after 2³² answers.

* `idResponses` — the responses to `GetQueryID` in a trace;
* `Numbering` — the invariant of a life: they carry 0, 1, 2, … modulo 2³², and the counter is at
  the next one;
* `Life` — a run of the server up to any event; `Life.counted` — what its responses carry;
* `uniqueIDs_iff` — when no two responses in a history of lives carry the same id.
-/

/-- The responses handed to `send` by `v0getQueryID`; `asked` says that the last event was its
    call. -/
def idResponses (asked : Bool) : List Event → List HTTPResponse
  | [] => []
  | .handed response :: events =>
    if asked then response :: idResponses false events else idResponses false events
  | .dispatched handler _ :: events => idResponses (decide (handler = .v0getQueryID)) events
  | .forwarded _ :: events => idResponses false events

/-- The response carries this id. -/
def Carries (json : Nlohmann) (response : HTTPResponse) (n : ℕ) : Prop :=
  HTTPResponse.ofJson json 200 (bytes "OK") (.object [(bytes "query_ID", .unsigned n)])
    = .ok response

/-- **What the interface document guarantees**: no two of the responses carry the same id. -/
def UniqueIDs (json : Nlohmann) (responses : List HTTPResponse) : Prop :=
  responses.Pairwise fun r r' => ∀ n, Carries json r n → ¬ Carries json r' n

/-- The `i`-th response of the trace carries `i` modulo 2³². -/
def Counted (json : Nlohmann) (events : List Event) : Prop :=
  ∀ i response, (idResponses false events)[i]? = some response →
    queryIDResponse json (UInt32.ofNat i) = .ok response

/-- The trace does not end with a call of `v0getQueryID`. -/
def Settled (trace : List Event) : Prop :=
  ∀ events, idResponses false (trace ++ events)
    = idResponses false trace ++ idResponses false events

/-- Two settled stretches make a settled one. -/
theorem Settled.append {trace events : List Event} (h : Settled trace) (h' : Settled events) :
    Settled (trace ++ events) := by
  intro more
  rw [List.append_assoc, h, h, h', List.append_assoc]

/-- A longer trace has the ids of its beginning, and perhaps more. -/
theorem idResponses_mono {asked : Bool} {events trace : List Event} (h : events <+: trace) :
    idResponses asked events <+: idResponses asked trace := by
  obtain ⟨more, rfl⟩ := h
  induction events generalizing asked with
  | nil => exact List.nil_prefix
  | cons event events ih =>
    cases event with
    | handed response =>
      simp only [List.cons_append, idResponses]
      split
      · exact (List.prefix_cons_inj response).mpr ih
      · exact ih
    | dispatched handler request => exact ih
    | forwarded request => exact ih

/-- What holds of a trace holds up to each of its events. -/
theorem Counted.upTo {json : Nlohmann} {events trace : List Event} (h : Counted json trace)
    (hpre : events <+: trace) : Counted json events := by
  intro i response hi
  obtain ⟨more, hmore⟩ := @idResponses_mono false events trace hpre
  apply h i response
  rw [← hmore, List.getElem?_append_left (List.getElem?_eq_some_iff.mp hi).1]
  exact hi

/-! ### One life -/

/-- What a complete answer adds: nothing, or the response with the next id. -/
theorem Exchange.idResponses {json : Nlohmann} {out : Option HTTPRequest} {id id' : UInt32}
    {events : List Event} (h : Exchange json out id id' events) :
    Settled events ∧
      ((id' = id ∧ Evaluation.idResponses false events = []) ∨
        (id' = id + 1 ∧ ∃ response, queryIDResponse json id = .ok response ∧
          Evaluation.idResponses false events = [response])) := by
  cases h
  case numbered request response _ _ hresponse =>
    exact ⟨fun _ => rfl, .inr ⟨rfl, response, hresponse, rfl⟩⟩
  case answered request handler response _ _ hother =>
    have hasked : decide (handler = .v0getQueryID) = false := decide_eq_false hother.1
    refine ⟨fun more => ?_, .inl ⟨rfl, ?_⟩⟩
    · simp [Evaluation.idResponses, hasked]
    · simp [Evaluation.idResponses, hasked]
  all_goals exact ⟨fun _ => rfl, .inl ⟨rfl, rfl⟩⟩

/-- An answer that cannot be built is no answer with an id. -/
theorem CutShort.idResponses {events : List Event} (h : CutShort events) :
    Evaluation.idResponses false events = [] := by cases h <;> rfl

/-- **The invariant**: the responses are counted, and the counter is at the next id. -/
structure Numbering (json : Nlohmann) (p : Process) : Prop where
  settled : Settled p.trace
  counted : Counted json p.trace
  next : p.queryID = UInt32.ofNat (idResponses false p.trace).length

/-- The next response is counted too. -/
theorem Numbering.next_counted {json : Nlohmann} {p : Process} (h : Numbering json p)
    {events : List Event} {response : HTTPResponse} (hid : queryIDResponse json p.queryID
      = .ok response) (hevents : idResponses false events = [response]) :
    Counted json (p.trace ++ events) := by
  intro i r hi
  rw [h.settled, hevents] at hi
  -- The response is one of the earlier ones, or the new one, which carries the counter.
  rcases Nat.lt_or_ge i (idResponses false p.trace).length with hlt | hge
  · rw [List.getElem?_append_left hlt] at hi
    exact h.counted i r hi
  · rw [List.getElem?_append_right hge] at hi
    obtain ⟨hlt, hr⟩ := List.getElem?_eq_some_iff.mp hi
    have hi' : i = (idResponses false p.trace).length := by
      rw [List.length_singleton] at hlt
      omega
    rw [hi', ← h.next, hid, ← hr]
    simp

/-- What gives out no id does not change the count. -/
theorem Numbering.nothing_counted {json : Nlohmann} {p : Process} (h : Numbering json p)
    {events : List Event} (hevents : idResponses false events = []) :
    Counted json (p.trace ++ events) := by
  intro i r hi
  rw [h.settled, hevents, List.append_nil] at hi
  exact h.counted i r hi

/-- A complete answer keeps the invariant. -/
theorem Numbering.exchange {json : Nlohmann} {p p' : Process} (h : Numbering json p)
    {out : Option HTTPRequest} {events : List Event}
    (hexchange : Exchange json out p.queryID p'.queryID events)
    (htrace : p'.trace = p.trace ++ events) : Numbering json p' := by
  obtain ⟨hsettled, ⟨hid, hnone⟩ | ⟨hid, response, hresponse, hone⟩⟩ := hexchange.idResponses
  · refine ⟨htrace ▸ h.settled.append hsettled, htrace ▸ h.nothing_counted hnone, ?_⟩
    rw [hid, htrace, h.settled, hnone, List.append_nil, h.next]
  · refine ⟨htrace ▸ h.settled.append hsettled, htrace ▸ h.next_counted hresponse hone, ?_⟩
    rw [hid, htrace, h.settled, hone, List.length_append, h.next]
    exact (UInt32.ofNat_add ..).symm

section

variable {lib : Library}

/-- One client. -/
theorem worker_numbering (worker : HTTPWorker) :
    Prog.Triple (Numbering lib.json) (worker.run lib) (fun _ => Numbering lib.json)
      fun _ p => Counted lib.json p.trace := by
  intro p hp o ho
  obtain ⟨out, s, -, hanswered⟩ | ⟨halt, p', rfl, htrace⟩ := run_exchange ho
  · cases o with
    | ok worker' p' =>
      obtain ⟨events, hexchange, htrace⟩ := hanswered
      exact hp.exchange hexchange htrace
    | error halt p' =>
      -- Ended on the way: before anything was handed out, or with the response on its way.
      obtain ⟨events, hcut | ⟨id, hexchange⟩, htrace⟩ := hanswered
      · show Counted lib.json p'.trace
        rw [htrace]
        exact hp.nothing_counted hcut.idResponses
      · show Counted lib.json p'.trace
        rw [htrace]
        obtain ⟨-, ⟨-, hnone⟩ | ⟨-, response, hresponse, hone⟩⟩ := hexchange.idResponses
        · exact hp.nothing_counted hnone
        · exact hp.next_counted hresponse hone
  · show Counted lib.json p'.trace
    rw [htrace]
    exact hp.counted

/-- However a server ends, its responses are counted. -/
theorem server_counted (server : HTTPServer) :
    Prog.Triple (Numbering lib.json) (server.run lib) (fun _ => Numbering lib.json)
      fun _ p => Counted lib.json p.trace := by
  refine HTTPServer.triple_run ?_ ?_ worker_numbering server
  · exact fun p w h => ⟨h.settled, h.counted, h.next⟩
  · exact fun halt p h => h.counted

/-- A process that starts. -/
def startedIn (world : World) : Process := { world, queryID := 0, trace := [] }

/-- At the start no id has been given out. -/
theorem numbering_startedIn (json : Nlohmann) (world : World) :
    Numbering json (startedIn world) where
  settled _ := rfl
  counted i response h := by cases h
  next := rfl

/-- **A life of the component**: the events of a run of the server, all of them or up to the one at
    which it was killed.  (A run that the parser keeps for ever does nothing after the last
    answer, so it is one with fewer results of `poll`, killed behind that answer.) -/
structure Life (lib : Library) where
  server : HTTPServer
  world : World
  events : List Event
  happens : ∃ o, (server.run lib).Returns (startedIn world) o ∧ events <+: o.state.trace

/-- The responses to `GetQueryID`. -/
def Life.responses (life : Life lib) : List HTTPResponse := idResponses false life.events

/-- The `i`-th one carries `i` modulo 2³². -/
theorem Life.counted (life : Life lib) : Counted lib.json life.events := by
  obtain ⟨o, ho, hpre⟩ := life.happens
  have hsafe := server_counted life.server _ (numbering_startedIn lib.json life.world) o ho
  cases o with
  | ok result p => exact (Numbering.counted hsafe).upTo hpre
  | error halt p => exact Counted.upTo hsafe hpre

/-- The responses of a life carry the numbers from 0 on, modulo 2³². -/
theorem Life.carries (life : Life lib) {i : ℕ} {response : HTTPResponse}
    (h : life.responses[i]? = some response) : Carries lib.json response (i % 2 ^ 32) := by
  have hcarries := life.counted i response h
  rw [queryIDResponse, UInt32.toNat_ofNat'] at hcarries
  exact hcarries

/-! ### A history of lives -/

/-- The texts of two numbers differ. -/
def DumpsNumbers (json : Nlohmann) : Prop :=
  ∀ key n m indent text, json.dump (.object [(key, .unsigned n)]) indent = .ok text →
    json.dump (.object [(key, .unsigned m)]) indent = .ok text → n = m

/-- A response carries one id. -/
theorem Carries.unique {json : Nlohmann} (hdump : DumpsNumbers json) {response : HTTPResponse}
    {n m : ℕ} (hn : Carries json response n) (hm : Carries json response m) : n = m := by
  unfold Carries HTTPResponse.ofJson at hn hm
  obtain ⟨text, htext, hn⟩ := ok_of_bind_ok hn
  obtain ⟨text', htext', hm⟩ := ok_of_bind_ok hm
  cases hn
  have hbody : text = text' := by
    have hresponse := Except.ok.inj hm
    exact (congrArg HTTPResponse.body hresponse).symm
  exact hdump _ n m _ text htext (hbody ▸ htext')

/-- The responses of one life carry different ids as long as the counter does not wrap. -/
theorem Life.distinct_iff (hdump : DumpsNumbers lib.json) (life : Life lib) :
    UniqueIDs lib.json life.responses ↔ life.responses.length ≤ 2 ^ 32 := by
  unfold UniqueIDs
  rw [List.pairwise_iff_getElem]
  constructor
  · intro hunique
    by_contra hlong
    rw [not_le] at hlong
    -- The first response and the one 2³² behind it both carry 0.
    have hfirst := life.carries (List.getElem?_eq_getElem (by omega : 0 < life.responses.length))
    have hagain := life.carries (List.getElem?_eq_getElem hlong)
    rw [Nat.mod_self] at hagain
    exact hunique 0 (2 ^ 32) (by omega) hlong (by omega) 0 hfirst hagain
  · intro hshort i j hi hj hij n hn hn'
    have hcarries := life.carries (List.getElem?_eq_getElem hi)
    have hcarries' := life.carries (List.getElem?_eq_getElem hj)
    rw [Nat.mod_eq_of_lt (by omega)] at hcarries hcarries'
    have hin := hcarries.unique hdump hn
    have hjn := hcarries'.unique hdump hn'
    omega

/-- Two lives that both answer both start with 0. -/
theorem Life.disjoint_iff (a b : Life lib) :
    (∀ r ∈ a.responses, ∀ r' ∈ b.responses, ∀ n, Carries lib.json r n → ¬ Carries lib.json r' n) ↔
      a.responses = [] ∨ b.responses = [] := by
  constructor
  · intro hdisjoint
    by_contra hboth
    rw [not_or] at hboth
    obtain ⟨r, rs, hr⟩ := List.exists_cons_of_ne_nil hboth.1
    obtain ⟨r', rs', hr'⟩ := List.exists_cons_of_ne_nil hboth.2
    have hfirst : Carries lib.json r 0 := a.carries (i := 0) (by rw [hr]; rfl)
    have hfirst' : Carries lib.json r' 0 := b.carries (i := 0) (by rw [hr']; rfl)
    exact hdisjoint r (by simp [hr]) r' (by simp [hr']) 0 hfirst hfirst'
  · rintro (hnone | hnone) r hr r' hr'
    · simp [hnone] at hr
    · simp [hnone] at hr'

/-- **Query ids are unique** if and only if all responses come from one life of the component, and
    are at most 2³². -/
theorem uniqueIDs_iff (hdump : DumpsNumbers lib.json) (history : List (Life lib)) :
    UniqueIDs lib.json (history.flatMap Life.responses) ↔
      (∀ life ∈ history, life.responses.length ≤ 2 ^ 32) ∧
        history.Pairwise fun a b => a.responses = [] ∨ b.responses = [] := by
  unfold UniqueIDs
  rw [List.pairwise_flatMap]
  refine and_congr ?_ ?_
  · exact forall₂_congr fun life _ => life.distinct_iff hdump
  · exact List.Pairwise.iff fun {a b} => a.disjoint_iff b

/-- What a request for an id leaves when `run` returns. -/
theorem run_numbered {worker worker' : HTTPWorker} {p p' : Process} {request : HTTPRequest}
    {s : SocketStream}
    (hparse : parseRequest.Returns (SocketStream.ofSocket (worker.socket.recvs p.world))
      (.ok (some request) s)) (hadmitted : Admitted request)
    (hhandler : handlerMapper request.resource = .v0getQueryID)
    (h : (worker.run lib).Returns p (.ok worker' p')) :
    ∃ response, queryIDResponse lib.json p.queryID = .ok response ∧
      p'.trace = p.trace ++ [.dispatched .v0getQueryID request, .handed response] := by
  obtain ⟨out, s', hparse', events, hexchange, htrace⟩ | ⟨_, _, ⟨⟩, -⟩ := run_exchange h
  cases hparse.unique hparse'
  have hcheck : checkRequest lib.json (some request) = .ok request :=
    checkParsed_admitted lib.json hadmitted
  obtain ⟨rest, hrest⟩ := hexchange.called hcheck
  rw [hhandler] at hrest
  generalize p'.queryID = id' at hexchange
  -- Of the exchanges, only the numbered one calls this handler.
  cases hexchange
  case numbered hcheck' _ hresponse =>
    cases hcheck.symm.trans hcheck'
    exact ⟨_, hresponse, htrace⟩
  case answered hother =>
    cases hrest
    exact absurd rfl hother.1
  all_goals cases hrest

end

/-- The plain serializer dumps different numbers differently. -/
theorem plain_dumpsNumbers : DumpsNumbers Nlohmann.plain := by
  intro key n m indent text hn hm
  unfold Nlohmann.plain at hn hm
  simp only [Json.utf8, Json.utf8Members, Bool.and_true] at hn hm
  split at hn
  · rename_i hutf8
    rw [if_pos hutf8] at hm
    have htext := (Except.ok.inj hn).trans (Except.ok.inj hm).symm
    simp only [Json.render, Json.renderMembers, List.append_nil, List.append_cancel_left_eq,
      List.append_cancel_right_eq] at htext
    rw [← decimal_toDecimal n, htext, decimal_toDecimal]
  · cases hn

/-- A request for an id. -/
def idRequest : HTTPRequest where
  method := .GET
  resource := bytes "/v0/GetQueryID"
  version := bytes "HTTP/1.1"
  headers := ∅
  body := []

/-- A client that sends it. -/
def idClient : Peer :=
  ⟨[some (bytes "GET /v0/GetQueryID HTTP/1.1\r\n\r\n")], .const (.sent 1000)⟩

/-- The reply to it is short. -/
theorem answeredTersely_idRequest : AnsweredTersely Library.plain (some idRequest) := by
  intro id reply hreply
  have hcheck : checkRequest Nlohmann.plain (some idRequest) = .ok idRequest :=
    checkParsed_admitted _ ⟨rfl, .inl rfl⟩
  have hhandler : handlerMapper idRequest.resource = .v0getQueryID := by decide +kernel
  -- The body is the one member with the id, whose digits are ten at most.
  have hdump : Nlohmann.plain.dump (.object [(bytes "query_ID", .unsigned id.toNat)]) (some 2)
      = .ok (bytes "\x7b" ++ lineBreak (some 2) 1 ++ quote (bytes "query_ID") ++ bytes ": "
        ++ toDecimal id.toNat ++ lineBreak (some 2) 0 ++ bytes "\x7d") := by
    show Except.ok _ = _
    rw [Json.render, Json.render, Json.renderMembers, List.append_nil]
    rfl
  have hdigits : (toDecimal id.toNat).length ≤ 10 :=
    length_toDecimal_le (by omega) (lt_trans id.toNat_lt (by norm_num))
  have hfixed : (bytes "\x7b").length = 1 ∧ (lineBreak (some 2) 1).length = 3 ∧
      (quote (bytes "query_ID")).length = 10 ∧ (bytes ": ").length = 2 ∧
      (lineBreak (some 2) 0).length = 1 ∧ (bytes "\x7d").length = 1 ∧
      (bytes "OK").length = 2 := by decide +kernel
  obtain ⟨response, hresponse, -⟩ := @ofJson_ok Nlohmann.plain Nlohmann.plain_documented 200
    (bytes "OK") (.object [(bytes "query_ID", .unsigned id.toNat)]) rfl
  have hanswered := @replyTo_called Nlohmann.plain _ id response _ hcheck (by
    rw [hhandler]
    exact hresponse)
  cases hreply.symm.trans hanswered
  refine ⟨?_, ?_⟩
  · have hlength := @length_responseText_ofJson Library.plain _ _ _ _ _ hdump hresponse (by
      simp only [List.length_append, hfixed]
      omega)
    simp only [List.length_append, hfixed] at hlength
    exact lt_of_le_of_lt hlength (by omega)
  · intro report hreport
    have hnone : handlerReport Nlohmann.plain idRequest (handlerMapper idRequest.resource)
        = none := by
      rw [hhandler]
      rfl
    cases hnone.symm.trans hreport

/-- So the client is harmless. -/
theorem harmless_idClient : Harmless Library.plain (delivered idClient.recvs) := by
  have hparse : parseRequest.Returns (SocketStream.ofSocket idClient.recvs)
      (.ok (some idRequest) _) := ⟨200, rfl⟩
  exact harmless_of_parse hparse (readable_of_short (by decide +kernel))
    (fun _ hbody => absurd rfl hbody) answeredTersely_idRequest

/-- The worker for the one client of the server for port 8080 returns. -/
theorem run_acceptedFrom {client : Peer}
    (hharmless : Harmless Library.plain (delivered client.recvs))
    (hcalm : (visitedBy client).world.Calm) : ∃ worker' p',
      (HTTPWorker.run Library.plain ⟨.ofFd 4⟩).Returns (acceptedFrom client) (.ok worker' p') ∧
        (acceptedFrom client).world.Later p'.world :=
  @run_returns Library.plain Nlohmann.plain_documented ⟨.ofFd 4⟩ (acceptedFrom client) hharmless
    (hcalm.later (later_acceptedFrom client)).not_fatal

/-- A life in which that client is served. -/
theorem exists_idLife : ∃ life : Life Library.plain, life.server = server8080 ∧
    life.world = (visitedBy idClient).world ∧ life.responses.length = 1 := by
  have hparse : parseRequest.Returns (SocketStream.ofSocket idClient.recvs)
      (.ok (some idRequest) _) := ⟨200, rfl⟩
  -- The worker returns, and so does the server, which finds nothing more at `poll`.
  obtain ⟨worker', p', hreturns, hlater'⟩ := run_acceptedFrom harmless_idClient
    (visitedBy_calm fun _ => ⟨nofun, nofun⟩)
  obtain ⟨response, -, htrace⟩ := @run_numbered Library.plain ⟨.ofFd 4⟩ worker'
    (acceptedFrom idClient) p' idRequest _ hparse ⟨rfl, .inl rfl⟩ (by decide +kernel) hreturns
  have hpoll : p'.world.answers.poll = [] := List.suffix_nil.mp hlater'.poll
  obtain ⟨p'', htrace', hrun⟩ := run_of_served hreturns hpoll
  refine ⟨⟨server8080, _, p'.trace, _, hrun, ?_⟩, rfl, rfl, ?_⟩
  · show p'.trace <+: p''.trace
    rw [htrace']
  · show (idResponses false p'.trace).length = 1
    rw [htrace]
    rfl

/-- A client that asks for an id and hangs up. -/
def hastyIdClient : Peer :=
  ⟨[some (bytes "GET /v0/GetQueryID HTTP/1.1\r\n\r\n"), none], .const .failed⟩

/-- A world that has two of them. -/
def twiceVisited : World where
  descriptors := fun _ => none
  portsInUse := ∅
  answers :=
    { socket := [some 3]
      bind := [some 8080]
      accept := [some (4, hastyIdClient), some (4, hastyIdClient)]
      poll := [.ready false true, .ready false true] }

/-- In one life they get two different ids. -/
theorem uniqueIDs_two : ∃ life : Life Library.plain, life.responses.length = 2 ∧
    UniqueIDs Library.plain.json ([life].flatMap Life.responses) := by
  have hrun : ((server8080.run Library.plain).run 400 (startedIn twiceVisited)).any
      (fun o => (idResponses false o.state.trace).length == 2) = true := by decide +kernel
  obtain ⟨o, ho, htwo⟩ := Prog.ends_of_run hrun
  let life : Life Library.plain :=
    ⟨server8080, twiceVisited, o.state.trace, o, ho, List.prefix_rfl⟩
  have hlength : life.responses.length = 2 := eq_of_beq htwo
  refine ⟨life, hlength, (uniqueIDs_iff plain_dumpsNumbers [life]).mpr ⟨?_, ?_⟩⟩
  · intro life' hlife
    rw [List.mem_singleton.mp hlife, hlength]
    exact Nat.le_of_ble_eq_true rfl
  · exact List.pairwise_singleton ..

/-- A client asks for an id, the component is started again, and a client asks for an id: the same
    one comes twice. -/
theorem uniqueIDs_counterexample : ∃ life : Life Library.plain, life.server = server8080 ∧
    life.world = (visitedBy idClient).world ∧
    ¬ UniqueIDs Library.plain.json ([life, life].flatMap Life.responses) := by
  obtain ⟨life, hserver, hworld, hone⟩ := exists_idLife
  refine ⟨life, hserver, hworld, fun hunique => ?_⟩
  unfold UniqueIDs at hunique
  rw [List.pairwise_flatMap, List.pairwise_pair] at hunique
  obtain hnone | hnone := (life.disjoint_iff life).mp hunique.2
  all_goals
    rw [hnone] at hone
    cases hone

end Evaluation
