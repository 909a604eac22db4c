import Evaluation.Lib.Message
import Evaluation.Report

namespace Evaluation

open Lib HTTPWorker

/-!
# One message on the wire

The parsers of this program are lenient.  A client that reads by the letter, its lines ended by CRLF
and its bodies as long as `Content-Length` states, finds what the program's own parser finds: a
single message, whose head is fixed up to the length of the body, whatever a client sends.

* `http` — the format;
* `HTTPResponse.message`, `HTTPRequest.message` — what `toString` writes, as messages;
* `ResponseHead`, `ReportHead` — the heads that responses and reports have;
* `run_oneMessage` — a client is sent one message and nothing else, and so is Link Analysis.
-/

/-! ### The format -/

/-- A field that states the length of the body. -/
def lengthOf (f : Bytes × Bytes) : Option ℕ :=
  if lowerName f.1 = contentLength ∧ f.2 ≠ [] ∧ f.2.all isdigit then some (decimal f.2) else none

/-- HTTP/1.1, by the letter. -/
def http : Format UInt8 where
  cr := carriageReturn
  lf := newline
  colon := colon
  space := space
  stated fields := (fields.filterMap lengthOf).head?

theorem http_cr_ne_colon : http.cr ≠ http.colon := by decide +kernel

theorem http_cr_ne_space : http.cr ≠ http.space := by decide +kernel

/-- The fields of a message, in the order in which they are written. -/
def fieldPairs (order : List Field) : List (Bytes × Bytes) := order.map fun f => (f.1, f.2)

def HTTPResponse.message (order : List Field) (response : HTTPResponse) : Message UInt8 where
  start := response.version ++ [space] ++ toDecimal response.code.toNat ++ [space]
    ++ response.status
  fields := fieldPairs order
  body := response.body

def HTTPRequest.message (order : List Field) (request : HTTPRequest) : Message UInt8 where
  start := request.method.methodToString ++ [space] ++ request.resource ++ [space]
    ++ request.version
  fields := fieldPairs order
  body := request.body

@[simp] theorem http_line (l : Bytes) : http.line l = l ++ crlf := rfl

/-- The fields are written as the program writes its headers. -/
theorem flatMap_fieldLine (order : List Field) :
    (fieldPairs order).flatMap http.fieldLine = order.flatMap fieldLine := by
  rw [fieldPairs, List.flatMap_map]
  apply List.flatMap_congr
  rintro ⟨name, value⟩ _
  show (name ++ colon :: space :: value) ++ crlf = name ++ [colon, space] ++ value ++ crlf
  simp

/-- A response is written as the message that it is. -/
theorem HTTPResponse.text_message (order : List Field) (response : HTTPResponse) :
    http.text (response.message order) = response.toString order := by
  simp only [Format.text, message, flatMap_fieldLine, toString, http_line, List.append_assoc,
    List.nil_append]

/-- A request is written as the message that it is. -/
theorem HTTPRequest.text_message (order : List Field) (request : HTTPRequest) :
    http.text (request.message order) = request.toString order := by
  simp only [Format.text, message, flatMap_fieldLine, toString, http_line, List.append_assoc,
    List.nil_append]

/-! ### Messages that are found again -/

/-- A message that states the length of its body, or ends with its head. -/
def Whole (m : Message UInt8) : Prop :=
  http.Strict m ∧ (http.stated m.fields = some m.body.length ∨
    http.stated m.fields = none ∧ m.body = [])

/-- **Its text** is this message and no other one, nor more of them. -/
theorem Whole.cuts_iff {m : Message UInt8} (h : Whole m) (ms : List (Message UInt8)) :
    http.Cuts ms (http.text m) ↔ ms = [m] := by
  have hcuts : http.Cuts [m] (http.text m) := by
    obtain ⟨hstrict, hlength | ⟨hopen, -⟩⟩ := h
    · have hone := Format.Cuts.sized hstrict hlength .nil
      rwa [List.append_nil] at hone
    · exact .last hstrict hopen
  constructor
  · intro hms
    exact hms.unique http_cr_ne_colon http_cr_ne_space hcuts
  · rintro rfl
    exact hcuts

/-- The order of the fields does not matter, where one of them states the length. -/
theorem stated_of_perm {fs fs' : List (Bytes × Bytes)} (h : fs.Perm fs') {n : ℕ}
    (hn : fs'.filterMap lengthOf = [n]) : http.stated fs = some n := by
  have hperm := h.filterMap lengthOf
  rw [hn] at hperm
  show (fs.filterMap lengthOf).head? = some n
  rw [List.perm_singleton.mp hperm]
  rfl

/-- In any order the headers give the same fields. -/
theorem fieldPairs_perm {order order' : List Field} {hs : Headers} (h : Lists order hs)
    (h' : Lists order' hs) : (fieldPairs order).Perm (fieldPairs order') :=
  (Multiset.coe_eq_coe.mp (h.trans h'.symm)).map _

/-- The field that the program writes states the length. -/
theorem lengthOf_contentLength (n : ℕ) :
    lengthOf (bytes "Content-Length", toDecimal n) = some n := by
  have hname : lowerName (bytes "Content-Length") = contentLength := by decide +kernel
  have hdigits : (toDecimal n).all isdigit = true :=
    List.all_eq_true.mpr fun c hc => isdigit_of_mem_toDecimal hc
  unfold lengthOf
  rw [if_pos ⟨hname, toDecimal_ne_nil n, hdigits⟩, decimal_toDecimal]

/-! ### The heads -/

/-- The fields that go with a JSON body. -/
def jsonFields (body : Bytes) : List (Bytes × Bytes) :=
  [(bytes "Content-Length", toDecimal body.length),
    (bytes "Content-Type", bytes "application/json")]

/-- Nothing but the body, and its length, can come from elsewhere: a status line from the table,
    with a JSON body and its two fields or with none of them. -/
structure ResponseHead (m : Message UInt8) : Prop where
  start : ∃ s ∈ statuses, m.start = bytes "HTTP/1.1 " ++ toDecimal s.1.toNat ++ [space] ++ s.2
  fields : m.fields = [] ∧ m.body = [] ∨ m.fields.Perm (jsonFields m.body)

/-- The same of a report to Link Analysis. -/
structure ReportHead (m : Message UInt8) : Prop where
  start : m.start = bytes "POST /evaluation/update_metadata HTTP/1.1"
  fields : m.fields.Perm
    ((bytes "Host", bytes "lspt-link-analysis.cs.rpi.edu:1234") :: jsonFields m.body)

/-- Neither of the two fields has a CR, an LF or a colon where it would matter. -/
theorem clean_jsonFields (body : Bytes) : ∀ f ∈ jsonFields body, http.Clean f := by
  intro f hf
  rcases List.mem_pair.mp hf with rfl | rfl
  · have hname : bytes "Content-Length" ≠ [] ∧ http.colon ∉ bytes "Content-Length" ∧
        http.cr ∉ bytes "Content-Length" := by decide +kernel
    refine ⟨hname.1, hname.2.1, hname.2.2, fun hmem => ?_⟩
    have hdigit : isdigit carriageReturn = true := isdigit_of_mem_toDecimal hmem
    revert hdigit
    decide
  · exact ⟨by decide +kernel, by decide +kernel, by decide +kernel, by decide +kernel⟩

/-- The two fields state the length of the body once. -/
theorem lengthOf_jsonFields (body : Bytes) :
    (jsonFields body).filterMap lengthOf = [body.length] := by
  have htype : lengthOf (bytes "Content-Type", bytes "application/json") = none := by
    decide +kernel
  unfold jsonFields
  rw [List.filterMap_cons_some (lengthOf_contentLength _), List.filterMap_cons_none htype,
    List.filterMap_nil]

/-- A message with the head of a response is whole. -/
theorem ResponseHead.whole {m : Message UInt8} (h : ResponseHead m) : Whole m := by
  obtain ⟨s, hs, hstart⟩ := h.start
  have hcr : http.cr ∉ m.start := by
    have hstatus : ∀ s ∈ statuses, carriageReturn ∉
        bytes "HTTP/1.1 " ++ toDecimal s.1.toNat ++ [space] ++ s.2 := by decide +kernel
    rw [hstart]
    exact hstatus s hs
  obtain ⟨hnone, hbody⟩ | hfields := h.fields
  · refine ⟨⟨hcr, by simp [hnone]⟩, .inr ⟨?_, hbody⟩⟩
    rw [hnone]
    rfl
  · refine ⟨⟨hcr, fun f hf => clean_jsonFields m.body f (hfields.mem_iff.mp hf)⟩, .inl ?_⟩
    exact stated_of_perm hfields (lengthOf_jsonFields m.body)

/-- A message with the head of a report is whole. -/
theorem ReportHead.whole {m : Message UInt8} (h : ReportHead m) : Whole m := by
  have hhost : http.Clean (bytes "Host", bytes "lspt-link-analysis.cs.rpi.edu:1234") :=
    ⟨by decide +kernel, by decide +kernel, by decide +kernel, by decide +kernel⟩
  have hother : lengthOf (bytes "Host", bytes "lspt-link-analysis.cs.rpi.edu:1234") = none := by
    decide +kernel
  refine ⟨⟨?_, fun f hf => ?_⟩, .inl (stated_of_perm h.fields ?_)⟩
  · rw [h.start]
    decide +kernel
  · rcases List.mem_cons.mp (h.fields.mem_iff.mp hf) with rfl | hf
    · exact hhost
    · exact clean_jsonFields m.body f hf
  · rw [List.filterMap_cons_none hother, lengthOf_jsonFields]

/-! ### What the program builds -/

/-- Every response of the service has such a head. -/
theorem Built.head {json : Nlohmann} {r : HTTPResponse} (h : Built json r) {order : List Field}
    (ho : Lists order r.headers) : ResponseHead (r.message order) := by
  obtain rfl | ⟨code, status, body, hmem, hbuilt⟩ := h
  · have hempty : order = [] := (Multiset.coe_eq_zero _).mp ho
    refine ⟨⟨(200, bytes "OK"), by decide, rfl⟩, .inl ⟨?_, rfl⟩⟩
    rw [hempty]
    rfl
  · unfold HTTPResponse.ofJson at hbuilt
    cases hdump : json.dump body (some 2) with
    | error e =>
      rw [hdump] at hbuilt
      cases hbuilt
    | ok text =>
      rw [hdump] at hbuilt
      cases hbuilt
      exact ⟨⟨(code, status), hmem, rfl⟩, .inr (fieldPairs_perm ho (lists_jsonHeaders text))⟩

/-- Every report has such a head. -/
theorem linkRequest_head {json : Nlohmann} {link : Bytes} {report : HTTPRequest}
    (h : linkRequest json link = .ok report) {order : List Field}
    (ho : Lists order report.headers) : ReportHead (report.message order) := by
  obtain ⟨-, hfields⟩ := linkRequest_fields h
  rw [hfields] at ho ⊢
  exact ⟨rfl, fieldPairs_perm ho (lists_reportHeaders report.body)⟩

section

variable {lib : Library} {worker worker' : HTTPWorker} {fd : Fd} {p p' : Process} {d : Descriptor}

/-- **One message.**  A client that takes everything it is sent gets one message, and a report to
    Link Analysis is one message: cut by the letter there is no other, their heads are fixed up to
    the length of the body, and what comes from the clients stands in the body. -/
theorem run_oneMessage (hfd : worker.socket.fd = some fd)
    (hd : p.world.descriptors fd = some d) (hnew : d.accepted = [])
    (hread : Readable (delivered (worker.socket.recvs p.world)))
    (h : (worker.run lib).Returns p (.ok worker' p')) :
    ∃ reply m, replyTo lib.json p.queryID
        (requestOf (delivered (worker.socket.recvs p.world))) = .ok reply ∧
      m = reply.response.message (lib.order reply.response.headers) ∧ ResponseHead m ∧
      ((http.text m).length < 2 ^ 32 → d.TakesAll (http.text m).length →
        ∃ d', p'.world.descriptors fd = some d' ∧ d'.accepted = http.text m ∧
          ∀ ms, http.Cuts ms d'.accepted ↔ ms = [m]) ∧
      ∀ report, reply.report = some report → ∀ order, Lists order report.headers →
        ReportHead (report.message order) ∧
          ∀ ms, http.Cuts ms (report.toString order) ↔ ms = [report.message order] := by
  obtain ⟨reply, hreply, htook⟩ := run_took hfd hread h
  have hhead := (replyTo_built hreply).head (lib.lists reply.response.headers)
  have htext := reply.response.text_message (lib.order reply.response.headers)
  refine ⟨reply, reply.response.message (lib.order reply.response.headers), hreply, rfl, hhead,
    fun hlen hall => ?_, fun report hreport order ho => ?_⟩
  · -- The client took the whole text of the response, and a message can be cut from it in one way
    -- only.
    rw [htext] at hlen hall
    obtain ⟨d', k, hd', haccepted, hwhole⟩ := htook.own d hd hlen
    rw [hnew, List.nil_append, hwhole hall, responseText, ← htext] at haccepted
    refine ⟨d', hd', haccepted, fun ms => ?_⟩
    rw [haccepted]
    exact hhead.whole.cuts_iff ms
  · -- The report is made from a link, so its head is that of a JSON body.
    obtain ⟨-, link, -, -, -, -, hlink⟩ := replyTo_report hreply hreport
    have hreporthead := linkRequest_head hlink ho
    refine ⟨hreporthead, fun ms => ?_⟩
    rw [← report.text_message]
    exact hreporthead.whole.cuts_iff ms

/-- A client that takes byte after byte. -/
theorem run_oneMessage_feedback : ∃ p' d', (∃ worker', (HTTPWorker.run Library.plain
    ⟨.ofFd 4⟩).Returns (acceptedFrom (feedbackClient (.const (.sent 1)))) (.ok worker' p')) ∧
      p'.world.descriptors 4 = some d' ∧
        ∀ ms, http.Cuts ms d'.accepted ↔ ms = [⟨bytes "HTTP/1.1 200 OK", [], []⟩] := by
  have hharmless := harmless_feedbackClient (.const (.sent 1))
  obtain ⟨worker', p', hreturns, -⟩ := run_acceptedFrom hharmless
    (visitedBy_calm fun _ => ⟨nofun, nofun⟩)
  obtain ⟨reply, m, hreply, hm, -, hsent, -⟩ := @run_oneMessage Library.plain ⟨.ofFd 4⟩
    worker' 4 (acceptedFrom (feedbackClient (.const (.sent 1)))) p'
    (.fresh 8080 (feedbackClient (.const (.sent 1)))) rfl rfl rfl hharmless.readable hreturns
  obtain ⟨hresponse, -⟩ := replyTo_feedback _ hreply
  have horder : Library.plain.order ∅ = [] :=
    (Multiset.coe_eq_zero _).mp (Library.plain.lists ∅)
  -- The response has no headers, so the order they are written in does not matter.
  have hmessage : m = ⟨bytes "HTTP/1.1 200 OK", [], []⟩ := by
    rw [hm, hresponse]
    show HTTPResponse.message (Library.plain.order ∅) _ = _
    rw [horder]
    decide +kernel
  have hlength : (http.text m).length = 19 := by
    rw [hmessage]
    decide +kernel
  obtain ⟨d', hd', -, hcuts⟩ := hsent (by rw [hlength]; decide) fun _ _ => ⟨1, rfl⟩
  exact ⟨p', d', ⟨worker', hreturns⟩, hd', fun ms => hmessage ▸ hcuts ms⟩

end

end Evaluation
