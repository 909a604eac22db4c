import Evaluation.LengthGate
import Evaluation.RoundTrip

namespace Evaluation

open Lib HTTPWorker SocketStream

/-!
# The program's own requests

A request that the program builds itself has its body's length in `Content-Length`, printed by
`to_string`.  The server finds it under `content-length`, reads it with `stoul` and cuts it to 32
bits; both ends mean the same number.

* `ofJson_sendable` — what the constructor builds can be read back;
* `contentLength_lookup` — the server finds the length under the lower-cased name;
* `run_dispatches_own` — the server dispatches what the program's own client sends.
-/

/-- Every text that `dump` yields without indentation has a first byte, which is no blank. -/
def Nlohmann.DumpsVisibly (json : Nlohmann) : Prop :=
  ∀ j text, json.dump j none = .ok text → ∃ c ∈ text.head?, isspace c = false

section

variable {json : Nlohmann} {method : Method} {resource : Bytes} {body : Json}
  {request : HTTPRequest}

/-- What the constructor sets. -/
theorem ofJson_fields (h : HTTPRequest.ofJson json method resource body = .ok request) :
    json.dump body none = .ok request.body ∧ request = {
      method, resource
      version := bytes "HTTP/1.1"
      headers := jsonHeaders request.body
      body := request.body } := by
  unfold HTTPRequest.ofJson at h
  cases htext : json.dump body none with
  | error e =>
    rw [htext] at h
    cases h
  | ok text =>
    rw [htext] at h
    cases h
    exact ⟨rfl, rfl⟩

/-- **What the constructor builds** can be read back. -/
theorem ofJson_sendable (hdump : json.DumpsVisibly) (hmethod : method ≠ .UNKNOWN)
    (hresource : IsWord resource)
    (h : HTTPRequest.ofJson json method resource body = .ok request) : request.Sendable := by
  obtain ⟨htext, hfields⟩ := ofJson_fields h
  obtain ⟨c, hc, hvisible⟩ := hdump _ _ htext
  rw [hfields]
  exact {
    method := hmethod
    resource := hresource
    version := (⟨by decide +kernel, by decide +kernel⟩ : IsWord (bytes "HTTP/1.1"))
    headers := portable_jsonHeaders request.body
    body := .inr ⟨c, List.mem_of_mem_head? hc, hvisible⟩ }

/-- The server finds the length under the lower-cased name. -/
theorem contentLength_lookup {text : Bytes} {hs' : Headers}
    (h : LowerCased (jsonHeaders text) hs') :
    hs'.lookup contentLength = some (toDecimal text.length) :=
  (h _ _).mpr ⟨bytes "Content-Length", Finmap.lookup_insert _, by decide +kernel⟩

/-- A printed length passes the comparison, if it fits 32 bits. -/
theorem passesLength_toDecimal {text : Bytes} (h : text.length < 2 ^ 32) :
    PassesLength (toDecimal text.length) text :=
  ⟨text.length, stoul_toDecimal (by omega), Nat.mod_eq_of_lt h⟩

/-- A message is at least as long as its body. -/
theorem length_body_le (request : HTTPRequest) (order : List Field) :
    request.body.length ≤ (request.toString order).length := by
  unfold HTTPRequest.toString
  rw [List.length_append]
  exact Nat.le_add_left ..

/-- **The server takes what the program's own client sends**, in whatever order the headers are
    written and however the message arrives: it is parsed as it was built (its header names in
    lower case), passes the checks of `run`, and goes to the handler of its resource. -/
theorem run_dispatches_own {lib : Library} (hdump : lib.json.DumpsVisibly)
    (hmethod : method ≠ .UNKNOWN) (hresource : IsWord resource)
    (hbuilt : HTTPRequest.ofJson lib.json method resource body = .ok request)
    {order : List Field} (horder : Lists order request.headers)
    {worker : HTTPWorker} {p : Process}
    (harrives : delivered (worker.socket.recvs p.world) = request.toString order)
    (hlen : (request.toString order).length < 2 ^ 32 - 1) :
    ∃ received s, parseRequest.Returns (ofSocket (worker.socket.recvs p.world))
        (.ok (some received) s) ∧
      received.method = method ∧ received.resource = resource ∧ received.body = request.body ∧
      lib.json.dump body none = .ok request.body ∧
      received.headers.lookup contentLength = some (toDecimal received.body.length) ∧
      checkRequest lib.json (some received) = .ok received ∧
      (worker.run lib).Settles p fun p' =>
        p.trace ++ [.dispatched (handlerMapper resource) received] <+: p'.trace := by
  obtain ⟨htext, hfields⟩ := ofJson_fields hbuilt
  have hsendable := ofJson_sendable hdump hmethod hresource hbuilt
  -- The parse.
  obtain ⟨hs', hlower, hread⟩ := requestOf_toString hsendable horder
  obtain ⟨s, hparse⟩ := parseRequest_returns _ (by rw [harrives]; exact hlen)
  rw [harrives, hread] at hparse
  -- The length.
  have hheaders : request.headers = jsonHeaders request.body := by rw [hfields]
  rw [hheaders] at hlower
  have hlookup := contentLength_lookup hlower
  have hshort : request.body.length < 2 ^ 32 := by
    have hbody := length_body_le request order
    omega
  have hadmitted : Admitted { request with headers := hs' } := by
    refine ⟨?_, .inr ⟨_, hlookup, passesLength_toDecimal hshort⟩⟩
    show request.version = _
    rw [hfields]
  have hcheck := checkParsed_admitted lib.json hadmitted
  have hdispatch := dispatches_of_check hparse hcheck
  have hmethod' : request.method = method := by rw [hfields]
  have hresource' : request.resource = resource := by rw [hfields]
  refine ⟨{ request with headers := hs' }, s, hparse, hmethod', hresource', rfl, htext, hlookup,
    hcheck, ?_⟩
  rw [← hresource']
  exact hdispatch

end

/-- A request with the body `[1]`, the longer header first, in two chunks. -/
def putChunks : List RecvResult :=
  [some (bytes "PUT /v0/GetQueryID HTTP/1.1\r\nContent-Type: application/js"),
    some (bytes "on\r\nContent-Length: 3\r\n\r\n[1]")]

/-- A `PUT` in two chunks, the first of which ends inside its header. -/
theorem run_dispatches_own_put :
    ∃ received s, parseRequest.Returns (ofSocket putChunks) (.ok (some received) s) ∧
      received.body = bytes "[1]" ∧
      (HTTPWorker.run Library.plain ⟨.ofFd 4⟩).Settles (servingClient putChunks) fun p' =>
        [.dispatched .v0getQueryID received] <+: p'.trace := by
  have hdump : Nlohmann.plain.DumpsVisibly :=
    fun j text h => Nlohmann.plain_documented.dump_head j none text h
  have htext : Nlohmann.plain.dump (.array [.unsigned 1]) none = .ok (bytes "[1]") := by
    decide +kernel
  let request : HTTPRequest := {
    method := .PUT
    resource := bytes "/v0/GetQueryID"
    version := bytes "HTTP/1.1"
    headers := jsonHeaders (bytes "[1]")
    body := bytes "[1]" }
  have hbuilt : HTTPRequest.ofJson Nlohmann.plain .PUT (bytes "/v0/GetQueryID")
      (.array [.unsigned 1]) = .ok request := by
    rw [HTTPRequest.ofJson, htext]
    rfl
  have horder : Lists [⟨bytes "Content-Type", bytes "application/json"⟩,
      ⟨bytes "Content-Length", toDecimal 3⟩] request.headers :=
    (Multiset.coe_eq_coe.mpr (List.Perm.swap ..)).trans (lists_jsonHeaders (bytes "[1]"))
  obtain ⟨received, s, hparse, -, -, hbody, -, -, -, hsettles⟩ :=
    @run_dispatches_own .PUT (bytes "/v0/GetQueryID") (.array [.unsigned 1]) request Library.plain
      hdump nofun ⟨by decide +kernel, by decide +kernel⟩ hbuilt _ horder ⟨.ofFd 4⟩
      (servingClient putChunks) (by decide +kernel) (by decide +kernel)
  exact ⟨received, s, hparse, hbody, hsettles⟩

end Evaluation
