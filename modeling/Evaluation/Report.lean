import Evaluation.Clicked
import Evaluation.OwnClient
import Evaluation.Wire

namespace Evaluation

open Lib HTTPWorker

/-!
# The report to Link Analysis

A clicked link is reported in a request that the worker sends on a connection of its own.

* `IsReportOf` — the report of a link: a request that whoever reads it reads back, with the link in
  its body;
* `reports_linkRequest` — what `v0reportSearchResults` builds is one;
* `World.ReachesLink`, `forward_sends` — when the report is sent on;
* `run_reports` — the reports of a run.
-/

/-- The body of the report of a link. -/
def reportBody (link : Bytes) : Json :=
  .object [(bytes "click_count", .array [.integer 1]),
    (bytes "list_of_clicked_links", .array [.string link])]

/-- What is read from the text of a report: the request line, the body, and the headers that go with
    it. -/
structure IsReport (json : Nlohmann) (link : Bytes) (request : HTTPRequest) : Prop where
  method : request.method = .POST
  resource : request.resource = bytes "/evaluation/update_metadata"
  version : request.version = bytes "HTTP/1.1"
  body : json.dump (reportBody link) none = .ok request.body
  contentType : request.headers.lookup (bytes "content-type") = some (bytes "application/json")
  contentLength : request.headers.lookup contentLength = some (toDecimal request.body.length)
  host : request.headers.lookup (bytes "host") = some (bytes "lspt-link-analysis.cs.rpi.edu:1234")

/-- **The report of a link**: in whatever order its headers are written and however its text is cut
    into chunks, it is read as one, and passes the checks that this program makes itself. -/
def IsReportOf (json : Nlohmann) (link : Bytes) (report : HTTPRequest) : Prop :=
  ∀ order, Lists order report.headers → ∀ rs, delivered rs = report.toString order →
    (report.toString order).length < 2 ^ 32 - 1 →
      ∃ s request, parseRequest.Returns (SocketStream.ofSocket rs) (.ok (some request) s) ∧
        IsReport json link request ∧ Admitted request

section

variable {json : Nlohmann} {link : Bytes} {report : HTTPRequest}

/-- The headers of a report. -/
def reportHeaders (text : Bytes) : Headers :=
  (jsonHeaders text).insert (bytes "Host") (bytes "lspt-link-analysis.cs.rpi.edu:1234")

/-- One of the orders in which they may be written. -/
theorem lists_reportHeaders (text : Bytes) :
    Lists [⟨bytes "Host", bytes "lspt-link-analysis.cs.rpi.edu:1234"⟩,
      ⟨bytes "Content-Length", toDecimal text.length⟩,
      ⟨bytes "Content-Type", bytes "application/json"⟩] (reportHeaders text) := rfl

/-- A message can carry them. -/
theorem portable_reportHeaders (text : Bytes) : Portable (reportHeaders text) := by
  have hdistinct : [lowerName (bytes "Host"), lowerName (bytes "Content-Length"),
      lowerName (bytes "Content-Type")].Nodup := by decide
  refine portable_of_lists (lists_reportHeaders text) ?_ hdistinct
  intro f hf
  rcases List.mem_cons.mp hf with rfl | hf
  · exact ⟨by decide +kernel, by decide +kernel, by decide +kernel, by decide +kernel⟩
  · -- The two headers of a JSON body.
    have hfits := (portable_jsonHeaders text).fits f.1 f.2
    rw [← mem_of_lists (lists_jsonHeaders text)] at hfits
    exact hfits hf

/-- What `linkRequest` builds. -/
theorem linkRequest_fields (h : linkRequest json link = .ok report) :
    json.dump (reportBody link) none = .ok report.body ∧ report = {
      method := .POST
      resource := bytes "/evaluation/update_metadata"
      version := bytes "HTTP/1.1"
      headers := reportHeaders report.body
      body := report.body } := by
  obtain ⟨request, hrequest, h⟩ := ok_of_bind_ok h
  cases h
  obtain ⟨htext, hfields⟩ := ofJson_fields hrequest
  refine ⟨htext, ?_⟩
  rw [hfields]
  rfl

/-- **What `v0reportSearchResults` builds** is the report of the link. -/
theorem reports_linkRequest (hdoc : json.Documented) (h : linkRequest json link = .ok report) :
    IsReportOf json link report := by
  obtain ⟨hdump, hfields⟩ := linkRequest_fields h
  obtain ⟨c, hc, hvisible⟩ := hdoc.dump_head _ _ _ hdump
  have hsendable : report.Sendable := by
    rw [hfields]
    exact {
      method := nofun
      resource := (⟨by decide +kernel, by decide +kernel⟩ :
        IsWord (bytes "/evaluation/update_metadata"))
      version := (⟨by decide +kernel, by decide +kernel⟩ : IsWord (bytes "HTTP/1.1"))
      headers := portable_reportHeaders report.body
      body := .inr ⟨c, List.mem_of_mem_head? hc, hvisible⟩ }
  intro order ho rs hrs hlen
  obtain ⟨hs, hlower, hread⟩ := requestOf_toString hsendable ho
  obtain ⟨s, hparse⟩ := parseRequest_returns rs (by rw [hrs]; exact hlen)
  rw [hrs, hread] at hparse
  have hheaders : report.headers = reportHeaders report.body := by rw [hfields]
  rw [hheaders] at hlower
  -- The headers are found under their lower-cased names.
  have hfound : ∀ name value, (reportHeaders report.body).lookup name = some value →
      hs.lookup (lowerName name) = some value :=
    fun name value hlook => (hlower _ _).mpr ⟨name, hlook, rfl⟩
  have hlength : hs.lookup contentLength = some (toDecimal report.body.length) :=
    hfound (bytes "Content-Length") _ rfl
  have hshort : report.body.length < 2 ^ 32 := by
    have hbody := length_body_le report order
    omega
  refine ⟨s, _, hparse, ⟨?_, ?_, ?_, hdump, ?_, hlength, ?_⟩, ?_, .inr ⟨_, hlength, ?_⟩⟩
  · show report.method = .POST
    rw [hfields]
  · show report.resource = _
    rw [hfields]
  · show report.version = _
    rw [hfields]
  · exact hfound (bytes "Content-Type") _ rfl
  · exact hfound (bytes "Host") _ rfl
  · show report.version = _
    rw [hfields]
  · exact passesLength_toDecimal hshort

end

/-! ### When the report is sent on -/

/-- Link Analysis can be reached: its address is found, there is a descriptor for the socket, and
    the connection is accepted. -/
structure World.ReachesLink (w : World) : Prop where
  address : ∃ ip, w.answers.getaddrinfo.headD none = some ip ∧
    inetPton (TCPSocket.cString ((ip ++ List.replicate 16 0).take 16)) = true
  socket : ∃ fd, w.answers.socket.headD none = some fd ∧ w.descriptors fd = none
  connect : ∃ peer, w.answers.connect.headD none = some peer

/-- As far as that goes the worlds are the same. -/
structure World.SameWay (w w' : World) : Prop where
  getaddrinfo : w'.answers.getaddrinfo = w.answers.getaddrinfo
  socket : w'.answers.socket = w.answers.socket
  connect : w'.answers.connect = w.answers.connect
  openFds : w'.openFds = w.openFds

namespace World

/-- A descriptor is closed if and only if it is not there. -/
theorem notMem_openFds_iff {w : World} {fd : Fd} : fd ∉ w.openFds ↔ w.descriptors fd = none := by
  show ¬ (w.descriptors fd).isSome = true ↔ _
  rw [Bool.not_eq_true, Option.isSome_eq_false_iff, Option.isNone_iff_eq_none]

theorem SameWay.trans {w w' w'' : World} (h : w.SameWay w') (h' : w'.SameWay w'') :
    w.SameWay w'' :=
  ⟨h'.getaddrinfo.trans h.getaddrinfo, h'.socket.trans h.socket, h'.connect.trans h.connect,
    h'.openFds.trans h.openFds⟩

/-- Whether Link Analysis is reached does not change on the way. -/
theorem SameWay.reachesLink_iff {w w' : World} (h : w.SameWay w') :
    w'.ReachesLink ↔ w.ReachesLink := by
  have hclosed : ∀ fd, w'.descriptors fd = none ↔ w.descriptors fd = none := fun fd => by
    rw [← notMem_openFds_iff, ← notMem_openFds_iff, h.openFds]
  constructor
  · rintro ⟨haddress, ⟨fd, hfd, hnone⟩, hconnect⟩
    exact ⟨h.getaddrinfo ▸ haddress, ⟨fd, h.socket ▸ hfd, (hclosed fd).mp hnone⟩,
      h.connect ▸ hconnect⟩
  · rintro ⟨haddress, ⟨fd, hfd, hnone⟩, hconnect⟩
    exact ⟨h.getaddrinfo ▸ haddress, ⟨fd, h.socket ▸ hfd, (hclosed fd).mpr hnone⟩,
      h.connect ▸ hconnect⟩

end World

section

variable {lib : Library} {link : Bytes} {report : HTTPRequest}

/-- `create` on a new socket opens the descriptor that there is for it, if any. -/
theorem create_eq (w : World) :
    (∃ fd d, w.answers.socket.headD none = some fd ∧ w.descriptors fd = none ∧
      (({} : TCPSocket).create w).1 = true ∧ (({} : TCPSocket).create w).2.1.fd = some fd ∧
        (({} : TCPSocket).create w).2.2.descriptors fd = some d ∧
          (({} : TCPSocket).create w).2.2.answers.connect = w.answers.connect) ∨
    ((¬ ∃ fd, w.answers.socket.headD none = some fd ∧ w.descriptors fd = none) ∧
      (({} : TCPSocket).create w).1 = false) := by
  unfold TCPSocket.create World.socket
  -- `socket` fails, gives a number that is in use, which is no answer of the kernel, or gives a new
  -- one.
  cases hanswer : w.answers.socket.headD none with
  | none => exact .inr ⟨by rintro ⟨fd, ⟨⟩, -⟩, rfl⟩
  | some fd =>
    cases hd : w.descriptors fd with
    | none =>
      dsimp only
      rw [hd, Option.isNone_none, if_pos rfl]
      exact .inl ⟨fd, _, rfl, hd, rfl, rfl, Function.update_self .., rfl⟩
    | some d =>
      refine .inr ⟨?_, by simp [hd]⟩
      rintro ⟨_, ⟨⟩, hnone⟩
      rw [hd] at hnone
      cases hnone

/-- `connect` on an open socket succeeds at an address, if the connection is accepted. -/
theorem connect_eq {sock : TCPSocket} {fd : Fd} (hfd : sock.fd = some fd) (ip : Bytes)
    (port : UInt16) {w : World} {d : Descriptor} (hd : w.descriptors fd = some d) :
    (sock.connect ip port w).1 = true ↔ inetPton (TCPSocket.cString ip) = true ∧
      ∃ peer, w.answers.connect.headD none = some peer := by
  unfold TCPSocket.connect
  rw [hfd]
  dsimp only
  split
  · rename_i hip
    unfold World.connect
    rw [hd]
    cases w.answers.connect.headD none with
    | none => simp
    | some answer => simp [hip]
  · rename_i hip
    simp [hip]

/-- Whether the report is sent on is decided by the address, the socket and the connection. -/
theorem forward_sends (hreport : linkRequest lib.json link = .ok report) (p : Process) :
    (forward lib link).Safe p fun o =>
      (p.world.ReachesLink → o.state.trace = p.trace ++ [.forwarded report]) ∧
        (¬ p.world.ReachesLink → o.state.trace = p.trace) := by
  have hsend : ∀ (sock : TCPSocket) (q : Process), (sendLink lib sock link).Safe q fun o =>
      o.state.trace = q.trace ++ [.forwarded report] := by
    intro sock q
    unfold sendLink
    rw [hreport, safe_orUncaught_ok_bind, safe_record_bind]
    refine (Prog.safe_zoom ..).mpr ?_
    rintro (_ | _) _ <;> rfl
  -- The address that is looked up.
  have hip : inetPton (TCPSocket.cString
      (TCPSocket.getIP linkAnalysisDomain linkAnalysisPort p.world).1) = true ↔
      ∃ ip, p.world.answers.getaddrinfo.headD none = some ip ∧
        inetPton (TCPSocket.cString ((ip ++ List.replicate 16 0).take 16)) = true := by
    unfold TCPSocket.getIP World.getaddrinfo
    cases p.world.answers.getaddrinfo.headD none with
    | none =>
      have hempty : inetPton (TCPSocket.cString []) = false := by decide +kernel
      simp [hempty]
    | some ip => simp
  have hsame : (TCPSocket.getIP linkAnalysisDomain linkAnalysisPort p.world).2.answers.socket
        = p.world.answers.socket ∧
      (TCPSocket.getIP linkAnalysisDomain linkAnalysisPort p.world).2.answers.connect
        = p.world.answers.connect ∧
      (TCPSocket.getIP linkAnalysisDomain linkAnalysisPort p.world).2.descriptors
        = p.world.descriptors := by
    rw [TCPSocket.getIP_world]
    exact ⟨rfl, rfl, rfl⟩
  unfold forward createLink
  rw [safe_onWorld_bind, safe_onWorld_bind]
  generalize (TCPSocket.getIP linkAnalysisDomain linkAnalysisPort p.world).1 = ip at hip
  generalize (TCPSocket.getIP linkAnalysisDomain linkAnalysisPort p.world).2 = w₁ at hsame
  dsimp only
  -- The socket is destroyed at the end, which leaves no event.
  refine Prog.Safe.bind (R := fun o =>
    (p.world.ReachesLink → o.state.trace = p.trace ++ [.forwarded report]) ∧
      (¬ p.world.ReachesLink → o.state.trace = p.trace)) ?_ ?_ fun _ _ h => h
  · unfold exchangeLink
    obtain ⟨fd, d, hsocket, hclosed, hcreated, hfd, hd, hconnect⟩ | ⟨hnone, hcreated⟩ :=
      create_eq w₁
    · rw [hcreated, if_pos rfl]
      unfold connectLink
      rw [safe_onWorld_bind]
      have hconnected := connect_eq hfd ip linkAnalysisPort hd
      rw [hip, hconnect, hsame.2.1] at hconnected
      rw [hsame.1] at hsocket
      rw [hsame.2.2] at hclosed
      cases hresult : ((({} : TCPSocket).create w₁).2.1.connect ip linkAnalysisPort
          (({} : TCPSocket).create w₁).2.2).1 with
      | true =>
        obtain ⟨haddress, haccepted⟩ := hconnected.mp hresult
        refine (hsend _ _).mono fun o ho => ⟨fun _ => ho, fun hunreached => ?_⟩
        exact absurd ⟨haddress, ⟨fd, hsocket, hclosed⟩, haccepted⟩ hunreached
      | false =>
        refine (Prog.safe_pure ..).mpr ⟨fun hreaches => ?_, fun _ => rfl⟩
        rw [hconnected.mpr ⟨hreaches.address, hreaches.connect⟩] at hresult
        cases hresult
    · rw [hcreated, if_neg Bool.false_ne_true, Prog.safe_pure]
      refine ⟨fun hreaches => absurd ?_ hnone, fun _ => rfl⟩
      rw [hsame.1, hsame.2.2]
      exact hreaches.socket
  · intro sent p' h
    exact (Prog.safe_ofFun ..).mpr h

/-- Sending does not change the way to Link Analysis. -/
theorem World.Sent.sameWay {fd : Fd} {w w' : World} (h : World.Sent fd w w') : w.SameWay w' :=
  ⟨by rw [h.answers], by rw [h.answers], by rw [h.answers], h.untouched.openFds⟩

/-- `TCPSocket::send` does not change the way to Link Analysis. -/
theorem socketSend_sameWay (sock : TCPSocket) (val : Bytes) (w : World) :
    (sock.send val true).Safe w fun o => w.SameWay o.state := by
  cases hfd : sock.fd with
  | none =>
    unfold TCPSocket.send
    rw [hfd]
    exact (Prog.safe_pure ..).mpr ⟨rfl, rfl, rfl, rfl⟩
  | some fd =>
    refine (TCPSocket.send_safe hfd val true w).mono ?_
    rintro (⟨sent, w'⟩ | ⟨halt, w'⟩) ho
    · exact World.Sent.sameWay ho
    · exact ho.1.sameWay

/-- What the handler that reports a link leaves when it returns. -/
def reportEvents (w : World) (report : HTTPRequest) (events : List Event) : Prop :=
  (w.ReachesLink → events = [.handed reportedResponse, .forwarded report]) ∧
    (¬ w.ReachesLink → events = [.handed reportedResponse])

/-- Behind the response the report is sent on if Link Analysis is reached, and else nothing is. -/
theorem reportLink_sends (hreport : linkRequest lib.json link = .ok report) (hne : link ≠ [])
    {worker : HTTPWorker} {p p' : Process}
    (h : (worker.reportLink lib link).Returns p (.ok () p')) :
    ∃ events, p'.trace = p.trace ++ events ∧ reportEvents p.world report events := by
  obtain ⟨sent, q, hsend, hforward⟩ | ⟨_, _, -, ⟨⟩⟩ := (Prog.returns_bind ..).mp h
  -- The response has been handed over, and the way to Link Analysis is as it was.
  have hhanded : q.trace = p.trace ++ [.handed reportedResponse] ∧ p.world.SameWay q.world := by
    have hsafe : (worker.send lib (.ok reportedResponse)).Safe p fun o =>
        o.state.trace = p.trace ++ [.handed reportedResponse] ∧ p.world.SameWay o.state.world := by
      unfold send
      rw [safe_orUncaught_ok_bind, safe_record_bind]
      refine (Prog.safe_zoom ..).mpr fun o ho => ?_
      have hsame := socketSend_sameWay _ _ _ o ho
      cases o <;> exact ⟨rfl, hsame⟩
    exact hsafe _ hsend
  rw [if_neg (by rwa [List.isEmpty_iff])] at hforward
  obtain ⟨hreaches, hmisses⟩ := forward_sends hreport q _ hforward
  rw [hhanded.2.reachesLink_iff, hhanded.1] at hreaches hmisses
  by_cases hway : p.world.ReachesLink
  · refine ⟨_, (hreaches hway).trans (List.append_assoc ..), fun _ => rfl, fun h => absurd hway h⟩
  · exact ⟨_, hmisses hway, fun h => absurd h hway, fun _ => rfl⟩

/-- A request that passes the checks is an admitted one. -/
theorem admitted_of_checkRequest {json : Nlohmann} {out : Option HTTPRequest}
    {request : HTTPRequest} (h : checkRequest json out = .ok request) :
    out = some request ∧ Admitted request := by
  cases out with
  | none => cases h
  | some request' =>
    have hparsed : checkParsed json request' = .ok request := h
    by_cases hadmitted : Admitted request'
    · rw [checkParsed_admitted json hadmitted] at hparsed
      cases hparsed
      exact ⟨rfl, hadmitted⟩
    · obtain ⟨response, hrefused, -⟩ := checkParsed_refused json hadmitted
      cases hrefused.symm.trans hparsed

/-- Only the handler of a report gives one, and only for a link that is not empty. -/
theorem handlerReport_some {json : Nlohmann} {request : HTTPRequest} {handler : Handler}
    (h : handlerReport json request handler = some report) :
    ∃ link, handler = .v0reportSearchResults ∧ reportedLink json request = .ok link ∧ link ≠ [] ∧
      linkRequest json link = .ok report := by
  unfold handlerReport at h
  split at h
  · rename_i link hlink
    split at h
    · cases h
    · rename_i hne
      refine ⟨link, rfl, hlink, hne, ?_⟩
      cases hrequest : linkRequest json link with
      | error e =>
        rw [hrequest] at h
        cases h
      | ok report' =>
        rw [hrequest] at h
        cases h
        rfl
  · cases h

/-- The service reports what was clicked. -/
theorem replyTo_report {json : Nlohmann} {id : UInt32} {out : Option HTTPRequest} {reply : Reply}
    (h : replyTo json id out = .ok reply) (hreport : reply.report = some report) :
    ∃ request link, checkRequest json out = .ok request ∧
      handlerMapper request.resource = .v0reportSearchResults ∧
        reportedLink json request = .ok link ∧ link ≠ [] ∧ linkRequest json link = .ok report := by
  obtain ⟨response, -, rfl⟩ | ⟨request, response, hcheck, -, rfl⟩ := replyTo_cases h
  · cases hreport
  · obtain ⟨link, hhandler, hlink, hne, hrequest⟩ := handlerReport_some hreport
    exact ⟨request, link, hcheck, hhandler, hlink, hne, hrequest⟩

theorem sameWay_setsockopt (w : World) (fd : Fd) (option : TimeoutOption) (sec usec : ℕ) :
    w.SameWay (w.setsockopt fd option sec usec).2 := by
  have hopen := (w.untouched_setsockopt fd option sec usec).openFds
  revert hopen
  unfold World.setsockopt
  cases w.descriptors fd with
  | none => exact fun hopen => ⟨rfl, rfl, rfl, hopen⟩
  | some d =>
    dsimp only
    split
    · cases option <;> exact fun hopen => ⟨rfl, rfl, rfl, hopen⟩
    · exact fun hopen => ⟨rfl, rfl, rfl, hopen⟩

theorem sameWay_setRecvs (sock : TCPSocket) (recvs : List RecvResult) (w : World) :
    w.SameWay (sock.setRecvs recvs w) := by
  have hopen := (sock.untouched_setRecvs recvs w).openFds
  revert hopen
  unfold TCPSocket.setRecvs
  cases sock.fd with
  | none => exact fun hopen => ⟨rfl, rfl, rfl, hopen⟩
  | some fd =>
    dsimp only
    cases w.descriptors fd with
    | none => exact fun hopen => ⟨rfl, rfl, rfl, hopen⟩
    | some d => exact fun hopen => ⟨rfl, rfl, rfl, hopen⟩

/-- Setting the time-out and reading change nothing about the way to Link Analysis. -/
theorem sameWay_read (sock : TCPSocket) (recvs : List RecvResult) (w : World) :
    let set := sock.setTimeout 10 .SO_RCVTIMEO w
    w.SameWay (set.2.1.setRecvs recvs set.2.2) := by
  intro set
  refine World.SameWay.trans ?_ (sameWay_setRecvs set.2.1 recvs set.2.2)
  obtain hsame | ⟨fd, sec, usec, -, hcall⟩ := sock.setTimeout_world 10 .SO_RCVTIMEO w
  · rw [hsame]
    exact ⟨rfl, rfl, rfl, rfl⟩
  · rw [hcall]
    exact sameWay_setsockopt ..

/-- A worker whose client has clicked a link comes to report it. -/
theorem run_reportLink {worker worker' : HTTPWorker} {p p' : Process} {request : HTTPRequest}
    (hread : Readable (delivered (worker.socket.recvs p.world)))
    (hcheck : checkRequest lib.json (requestOf (delivered (worker.socket.recvs p.world)))
      = .ok request) (hhandler : handlerMapper request.resource = .v0reportSearchResults)
    (hlink : reportedLink lib.json request = .ok link)
    (h : (worker.run lib).Returns p (.ok worker' p')) :
    ∃ (worker'' : HTTPWorker) (q : Process), p.world.SameWay q.world ∧
      q.trace = p.trace ++ [.dispatched .v0reportSearchResults request] ∧
        (worker''.reportLink lib link).Returns q (.ok () p') := by
  obtain ⟨s₀, hparse₀⟩ := parseRequest_reads _ hread
  obtain ⟨s, ⟨out, hparse, hanswer⟩ | ⟨e, ⟨⟩⟩⟩ := run_cases h
  -- The bytes are within the cursor, so what the run has parsed is the request.
  cases hparse₀.unique hparse
  obtain ⟨u, q, hanswer, hpure⟩ | ⟨_, _, -, ⟨⟩⟩ := (Prog.returns_bind ..).mp hanswer
  cases (Prog.returns_pure ..).mp hpure
  unfold answer at hanswer
  rw [hcheck] at hanswer
  have hcall := (Prog.returns_bind_of_ok ((Prog.returns_ofFun ..).mpr rfl) _).mp hanswer
  rw [hhandler] at hcall
  have hreport : (v0reportSearchResults lib _ request).Returns _ _ := hcall
  unfold v0reportSearchResults at hreport
  rw [hlink] at hreport
  exact ⟨_, _, sameWay_read worker.socket s₀.socket p.world, rfl, hreport⟩

/-- **The reports of a run.**  A worker that returns sends on what the service reports, if Link
    Analysis can be reached when the client comes, and else nothing.  What the service reports is
    the report of the link that the client has clicked: it has sent it in a request that has passed
    the checks, and whoever reads the report reads it back. -/
theorem run_reports (hdoc : lib.json.Documented) {worker worker' : HTTPWorker} {p p' : Process}
    (hread : Readable (delivered (worker.socket.recvs p.world)))
    (h : (worker.run lib).Returns p (.ok worker' p')) :
    ∃ reply, replyTo lib.json p.queryID
        (requestOf (delivered (worker.socket.recvs p.world))) = .ok reply ∧
      (p.world.ReachesLink → p.reportsSince p' = reply.report.toList) ∧
      (¬ p.world.ReachesLink → p.reportsSince p' = []) ∧
      ∀ report, reply.report = some report → ∃ request link,
        requestOf (delivered (worker.socket.recvs p.world)) = some request ∧ Admitted request ∧
          handlerMapper request.resource = .v0reportSearchResults ∧
            reportedLink lib.json request = .ok link ∧ link ≠ [] ∧
              IsReportOf lib.json link report := by
  obtain ⟨reply, events, hreply, hgiven, htrace, -⟩ := run_replied hread h
  have hsince : p.reportsSince p' = events.filterMap Event.forwardedReport := by
    unfold Process.reportsSince
    rw [htrace, List.drop_left]
  -- What becomes of the report.
  have hsent : (p.world.ReachesLink → p.reportsSince p' = reply.report.toList) ∧
      (¬ p.world.ReachesLink → p.reportsSince p' = []) := by
    cases hreport : reply.report with
    | none =>
      have hnone := hgiven.reports
      rw [hreport, ← hsince] at hnone
      exact ⟨fun _ => List.sublist_nil.mp hnone, fun _ => List.sublist_nil.mp hnone⟩
    | some report =>
      obtain ⟨request, link, hcheck, hhandler, hlink, hne, hrequest⟩ :=
        replyTo_report hreply hreport
      obtain ⟨_, q, hway, hq, hlast⟩ := run_reportLink hread hcheck hhandler hlink h
      obtain ⟨sent, hp', hreaches, hmisses⟩ := reportLink_sends hrequest hne hlast
      rw [hway.reachesLink_iff] at hreaches hmisses
      have hsplit : p.reportsSince p' = sent.filterMap Event.forwardedReport := by
        unfold Process.reportsSince
        rw [hp', hq, List.append_assoc, List.drop_left]
        rfl
      rw [hsplit]
      exact ⟨fun hlinked => by rw [hreaches hlinked]; rfl, fun hlost => by rw [hmisses hlost]; rfl⟩
  refine ⟨reply, hreply, hsent.1, hsent.2, fun report hreport => ?_⟩
  obtain ⟨request, link, hcheck, hhandler, hlink, hne, hrequest⟩ := replyTo_report hreply hreport
  obtain ⟨hread, hadmitted⟩ := admitted_of_checkRequest hcheck
  exact ⟨request, link, hread, hadmitted, hhandler, hlink, hne, reports_linkRequest hdoc hrequest⟩

end

/-- The click is reported. -/
theorem replyTo_click (id : UInt32) : ∃ report,
    linkRequest secondClicked.json (bytes "b") = .ok report ∧
      replyTo secondClicked.json id (some clickRead)
        = .ok ⟨some (.v0reportSearchResults, clickRead), reportedResponse, some report⟩ := by
  have hhandler : handlerMapper clickRead.resource = .v0reportSearchResults := by decide +kernel
  obtain ⟨report, hreport⟩ := @linkRequest_builds secondClicked secondClicked_documented
    (bytes "b") (by decide +kernel)
  have hne : bytes "b" ≠ [] := by decide
  refine ⟨report, hreport, ?_⟩
  have hresponse : handlerResponse secondClicked.json id clickRead
      (handlerMapper clickRead.resource) = .ok reportedResponse := by
    rw [hhandler]
    simp only [handlerResponse, reportedLink_click]
  rw [replyTo_called checkRequest_click hresponse]
  simp only [hhandler, handlerReport, reportedLink_click, if_neg hne, hreport, Except.toOption]

/-- The response and the report are short. -/
theorem answeredTersely_click : AnsweredTersely secondClicked (some clickRead) := by
  intro id reply hreply
  obtain ⟨report, hreport, hclick⟩ := replyTo_click id
  cases hreply.symm.trans hclick
  refine ⟨?_, ?_⟩
  · show (responseText _ (HTTPResponse.ofStatus 200 (bytes "OK"))).length < _
    rw [responseText_ofStatus]
    decide +kernel
  · rintro _ ⟨⟩
    obtain ⟨hdump, hfields⟩ := linkRequest_fields hreport
    have hbody : report.body = (reportBody (bytes "b")).render none 0 :=
      (Except.ok.inj hdump).symm
    rw [hfields, length_requestText _ (lists_reportHeaders report.body), hbody]
    decide +kernel

/-- The client is harmless. -/
theorem harmless_click : Harmless secondClicked (delivered [some clickText]) := by
  obtain ⟨s, hparse⟩ := parses_click
  refine harmless_of_parse hparse (readable_of_short (by decide +kernel)) ?_
    answeredTersely_click
  intro _ _ header hheader
  cases (Finmap.lookup_insert _).symm.trans hheader
  exact .inr (by decide +kernel)

/-- The click is read as a request. -/
theorem requestOf_click : requestOf (delivered [some clickText]) = some clickRead := by
  obtain ⟨s, hparse⟩ := parses_click
  obtain ⟨s', hparse'⟩ := parseRequest_reads [some clickText] harmless_click.readable
  exact (Outcome.ok.inj (hparse'.unique hparse)).1

/-- The client has been accepted, and Link Analysis can be reached. -/
def clickedFrom : Process :=
  { servingClient [some clickText] with
    world :=
      { (servingClient [some clickText]).world with
        answers :=
          { socket := [some 5]
            connect := [some (40000, ⟨[], .const (.sent 7)⟩)]
            getaddrinfo := [some (bytes "10.0.0.1")] } } }

/-- No `::send` is fatal while the click is served. -/
theorem clickedFrom_calm (halt : Halt) : ¬ FatalSend clickedFrom halt := by
  have hsent : ∀ result, clickedFrom.world.Pending result → ∃ n, result = .sent n := by
    rintro result (⟨fd, d, hd, i, hi⟩ | ⟨fd, peer, ⟨⟩, -⟩ | ⟨port, peer, hmem, i, hi⟩)
    · have hd' : Function.update (fun _ => none) 4
        (some (Descriptor.fresh 8080 ⟨[some clickText], .const (.sent 1)⟩)) fd = some d := hd
      by_cases hfd : fd = 4
      · subst hfd
        rw [Function.update_self] at hd'
        cases hd'
        exact ⟨1, hi⟩
      · rw [Function.update_of_ne hfd] at hd'
        cases hd'
    · cases List.mem_singleton.mp hmem
      exact ⟨7, hi⟩
  rintro (⟨-, hpending⟩ | ⟨-, hpending⟩)
  · obtain ⟨n, ⟨⟩⟩ := hsent _ hpending
  · obtain ⟨n, ⟨⟩⟩ := hsent _ hpending

/-- Link Analysis is reached when the click is served. -/
theorem clickedFrom_reachesLink : clickedFrom.world.ReachesLink :=
  ⟨⟨_, rfl, by decide +kernel⟩, ⟨5, rfl, rfl⟩, ⟨_, rfl⟩⟩

/-- The worker for it returns. -/
theorem run_clickedFrom : ∃ worker' p',
    (HTTPWorker.run secondClicked ⟨.ofFd 4⟩).Returns clickedFrom (.ok worker' p') := by
  obtain ⟨worker', p', hreturns, -⟩ := @run_returns secondClicked secondClicked_documented
    ⟨.ofFd 4⟩ clickedFrom harmless_click clickedFrom_calm
  exact ⟨worker', p', hreturns⟩

/-- The click is reported. -/
theorem run_reports_click : ∃ p' report, (∃ worker', (HTTPWorker.run secondClicked
    ⟨.ofFd 4⟩).Returns clickedFrom (.ok worker' p')) ∧
      clickedFrom.reportsSince p' = [report] ∧
        IsReportOf secondClicked.json (bytes "b") report := by
  obtain ⟨worker', p', hreturns⟩ := run_clickedFrom
  obtain ⟨reply, hreply, hreaches, -, hreads⟩ := @run_reports secondClicked
    secondClicked_documented ⟨.ofFd 4⟩ worker' clickedFrom p' harmless_click.readable hreturns
  obtain ⟨report, -, hclick⟩ := replyTo_click 0
  cases (requestOf_click ▸ hreply).symm.trans hclick
  obtain ⟨request, link, hread, -, -, hlink, -, hreports⟩ := hreads report rfl
  cases requestOf_click.symm.trans hread
  cases reportedLink_click.symm.trans hlink
  exact ⟨p', report, ⟨worker', hreturns⟩, hreaches clickedFrom_reachesLink, hreports⟩

/-- What such a worker leaves. -/
theorem trace_clickedFrom {worker' : HTTPWorker} {p' : Process}
    (h : (HTTPWorker.run secondClicked ⟨.ofFd 4⟩).Returns clickedFrom (.ok worker' p')) :
    ∃ report, p'.trace = [.dispatched .v0reportSearchResults clickRead,
      .handed reportedResponse, .forwarded report] := by
  have hcheck : checkRequest secondClicked.json (requestOf (delivered [some clickText]))
      = .ok clickRead := by
    rw [requestOf_click]
    exact checkRequest_click
  obtain ⟨worker, q, hway, hq, hlast⟩ := @run_reportLink secondClicked (bytes "b") ⟨.ofFd 4⟩
    worker' clickedFrom p' clickRead harmless_click.readable hcheck (by decide +kernel)
    reportedLink_click h
  obtain ⟨report, hreport, -⟩ := replyTo_click 0
  obtain ⟨events, htrace, hreaches, -⟩ := reportLink_sends hreport (by decide) hlast
  rw [htrace, hq, hreaches (hway.reachesLink_iff.mpr clickedFrom_reachesLink)]
  exact ⟨report, rfl⟩

/-- It is answered once, before the click is reported, and has earned the report. -/
theorem run_answers_once_click : ∃ p' before report after,
    (∃ worker', (HTTPWorker.run secondClicked ⟨.ofFd 4⟩).Returns clickedFrom (.ok worker' p')) ∧
      p'.trace = before ++ .forwarded report :: after ∧
      p'.trace.countP Event.isHanded = 1 ∧ p'.trace.countP Event.isForwarded ≤ 1 ∧
      Event.handed reportedResponse ∈ before ∧
      ∃ request s, parseRequest.Returns (SocketStream.ofSocket [some clickText])
        (.ok (some request) s) ∧ Admitted request := by
  obtain ⟨worker', p', hreturns⟩ := run_clickedFrom
  obtain ⟨events, htrace, hhanded, hforwarded, hbefore, hearned⟩ :=
    @run_answers_once secondClicked ⟨.ofFd 4⟩ worker' clickedFrom p' hreturns
  obtain ⟨report, hclick⟩ := trace_clickedFrom hreturns
  have hevents : events = [.dispatched .v0reportSearchResults clickRead,
      .handed reportedResponse, .forwarded report] := htrace.symm.trans hclick
  -- The response is handed out before the report is forwarded.
  have hsplit : events = [.dispatched .v0reportSearchResults clickRead,
      .handed reportedResponse] ++ .forwarded report :: [] := hevents
  have htrace' : p'.trace = events := htrace
  refine ⟨p', _, report, [], ⟨worker', hreturns⟩, htrace'.trans hsplit, htrace' ▸ hhanded,
    htrace' ▸ hforwarded, hbefore _ _ _ hsplit, hearned (.inr ⟨report, ?_⟩)⟩
  rw [hevents]
  exact List.mem_cons_of_mem _ (List.mem_cons_of_mem _ (List.mem_cons_self ..))

end Evaluation
