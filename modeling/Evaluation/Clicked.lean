import Evaluation.Exchange

namespace Evaluation

open Lib HTTPWorker

/-!
# The clicked result

`v0reportSearchResults` reads the index of the clicked result into an `unsigned int` before `at`
checks its bounds.  What `at` sees is the index modulo 2³².

* `reportedLink_eq` — the handler takes the element at the index modulo 2³², if there is one;
* `SelectsClicked` — what the handler is for;
* `clicked_iff` — it does so if and only if the list has at that index what it has at the clicked
  one.
-/

/-- The value is this integer, stored with a sign or without. -/
def Json.IsInt (j : Json) (n : ℤ) : Prop := j = .integer n ∨ ∃ m : ℕ, j = .unsigned m ∧ n = m

/-- A request that reports a click: a POST of a JSON object with the results shown and the index of
    the clicked one. -/
structure ReportsClick (json : Nlohmann) (request : HTTPRequest) (results : List Bytes)
    (clicked : ℤ) : Prop where
  method : request.method = .POST
  contentType : request.headers.lookup (bytes "content-type") = some (bytes "application/json")
  body : ∃ members number, json.parse request.body = .ok (.object members) ∧
    members.lookup (bytes "results") = some (.array (results.map .string)) ∧
    members.lookup (bytes "clicked") = some number ∧ number.IsInt clicked

/-- The clicked result; there is none at a negative index or behind the end. -/
def clickedResult (results : List Bytes) (clicked : ℤ) : Option Bytes :=
  if 0 ≤ clicked then results[clicked.toNat]? else none

/-- No result is clicked if and only if the index is out of range. -/
theorem clickedResult_eq_none {results : List Bytes} {clicked : ℤ} :
    clickedResult results clicked = none ↔ ¬ (0 ≤ clicked ∧ clicked < results.length) := by
  unfold clickedResult
  split
  · rw [List.getElem?_eq_none_iff]
    omega
  · simp_all

section

variable {json : Nlohmann} {request : HTTPRequest} {results : List Bytes} {clicked : ℤ}

/-- The conversion to `unsigned int` cuts every integer to 32 bits. -/
theorem toUnsigned_of_isInt (hdoc : json.Documented) {number : Json} (h : number.IsInt clicked) :
    ∃ n : UInt32, json.toUnsigned number = .ok n ∧ n.toNat = (clicked % 2 ^ 32).toNat := by
  obtain rfl | ⟨m, rfl, rfl⟩ := h
  · refine ⟨UInt32.ofInt clicked, hdoc.toUnsigned_integer clicked, ?_⟩
    show ((clicked % 2 ^ 32).toNat) % 2 ^ 32 = _
    omega
  · refine ⟨UInt32.ofNat m, hdoc.toUnsigned_unsigned m, ?_⟩
    rw [UInt32.toNat_ofNat']
    omega

/-- The body of the `try` takes the element at the index modulo 2³², or throws. -/
theorem clickedLink_eq (hdoc : json.Documented) (h : ReportsClick json request results clicked) :
    (∀ link, results[(clicked % 2 ^ 32).toNat]? = some link →
      clickedLink json request.body = .ok link) ∧
    (results[(clicked % 2 ^ 32).toNat]? = none →
      ∃ e, clickedLink json request.body = .error e) := by
  obtain ⟨members, number, hparse, hresults, hclicked, hnumber⟩ := h.body
  obtain ⟨n, hn, hcut⟩ := toUnsigned_of_isInt hdoc hnumber
  have hlink : clickedLink json request.body
      = json.atIndex (.array (results.map .string)) n.toNat >>= json.toBytes := by
    have hresults' := (hdoc.atKey_iff ..).mpr ⟨members, rfl, hresults⟩
    have hclicked' := (hdoc.atKey_iff ..).mpr ⟨members, rfl, hclicked⟩
    simp only [clickedLink, hparse, hresults', hclicked', hn, bind, Except.bind]
  rw [← hcut, hlink]
  constructor
  · intro link hget
    have helem : json.atIndex (.array (results.map .string)) n.toNat = .ok (.string link) :=
      (hdoc.atIndex_iff ..).mpr ⟨_, rfl, by rw [List.getElem?_map, hget]; rfl⟩
    rw [helem]
    exact (hdoc.toBytes_iff ..).mpr rfl
  · intro hget
    cases helem : json.atIndex (.array (results.map .string)) n.toNat with
    | error e => exact ⟨e, rfl⟩
    | ok v =>
      -- What `at` gives is an element of the list, and there is none.
      obtain ⟨elems, ⟨⟩, hsome⟩ := (hdoc.atIndex_iff ..).mp helem
      rw [List.getElem?_map, hget] at hsome
      cases hsome

/-- So the handler does, or refuses. -/
theorem reportedLink_eq (hdoc : json.Documented) (h : ReportsClick json request results clicked) :
    (∀ link, results[(clicked % 2 ^ 32).toNat]? = some link →
      reportedLink json request = .ok link) ∧
    (results[(clicked % 2 ^ 32).toNat]? = none → reportedLink json request
      = .error (HTTPResponse.makeErrorResponse json 400 (bytes "Bad Request")
        (bytes "Improper format of request body."))) := by
  obtain ⟨hsome, hnone⟩ := clickedLink_eq hdoc h
  unfold reportedLink
  rw [if_neg (not_not.mpr h.method), if_neg (not_not.mpr h.contentType)]
  constructor
  · intro link hget
    rw [hsome link hget]
  · intro hget
    obtain ⟨e, he⟩ := hnone hget
    rw [he]

/-- When the list has the same at both indices, the clicked result is taken, and where there is none
    the request is refused. -/
theorem reportedLink_clicked (hdoc : json.Documented)
    (h : ReportsClick json request results clicked)
    (hsame : results[(clicked % 2 ^ 32).toNat]? = clickedResult results clicked) :
    (∀ link, clickedResult results clicked = some link → reportedLink json request = .ok link) ∧
    (clickedResult results clicked = none → ∃ response,
      reportedLink json request = .error (.ok response) ∧ response.code = 400) := by
  have hstatus : isUtf8 (bytes "Bad Request") = true := by decide +kernel
  have hmsg : isUtf8 (bytes "Improper format of request body.") = true := by decide +kernel
  obtain ⟨response, hresponse, hcode⟩ := makeErrorResponse_ok hdoc 400 hstatus hmsg
  obtain ⟨hsome, hnone⟩ := reportedLink_eq hdoc h
  rw [hresponse] at hnone
  rw [← hsame]
  exact ⟨hsome, fun hcut => ⟨response, hnone hcut, hcode⟩⟩

end

/-! ### What the handler leaves -/

/-- **What the handler is for**: it takes the clicked result, answers with 200, and what it then
    sends on to Link Analysis, if anything, is the report of that result, which is not empty; an
    index at which there is no result it answers with 400, and sends nothing on. -/
structure SelectsClicked (lib : Library) (request : HTTPRequest) (results : List Bytes)
    (clicked : ℤ) : Prop where
  takes : ∀ link, clickedResult results clicked = some link →
    reportedLink lib.json request = .ok link
  answers : ∀ (worker : HTTPWorker) (p : Process),
    (worker.v0reportSearchResults lib request).Settles p fun p' =>
      ∃ events, p'.trace = p.trace ++ events ∧
        (∀ link, clickedResult results clicked = some link →
          events = [.handed reportedResponse] ∨
          link ≠ [] ∧ ∃ report, linkRequest lib.json link = .ok report ∧
            events = [.handed reportedResponse, .forwarded report]) ∧
        (¬ (0 ≤ clicked ∧ clicked < results.length) →
          ∃ response, response.code = 400 ∧ events = [.handed response])

section

variable {lib : Library} {request : HTTPRequest} {results : List Bytes} {clicked : ℤ}

/-- A link that the handler takes is answered with 200 first of all. -/
theorem answered_of_reportedLink {link : Bytes} (h : reportedLink lib.json request = .ok link)
    (worker : HTTPWorker) (p : Process) :
    (worker.v0reportSearchResults lib request).Throughout p fun p' =>
      p.trace ++ [.handed reportedResponse] <+: p'.trace := by
  unfold v0reportSearchResults
  rw [h]
  refine (reportLink_leaves worker link p).mono ?_
  rintro p' (hp' | ⟨-, report, -, hp'⟩)
  · rw [hp'.trace]
  · rw [hp'.trace]
    exact ⟨[.forwarded report], List.append_assoc ..⟩

/-- An index at which there is no result is refused: a link taken there would be answered with 200,
    when 400 is called for. -/
theorem SelectsClicked.refuses (h : SelectsClicked lib request results clicked)
    (hnone : clickedResult results clicked = none) (link : Bytes) :
    reportedLink lib.json request ≠ .ok link := by
  intro hlink
  -- Any worker in any process shows it.
  let p : Process := ⟨⟨fun _ => none, ∅, {}, []⟩, 0, []⟩
  obtain ⟨n, hfirst, events, htrace, -, hrefuses⟩ :=
    ((answered_of_reportedLink hlink ⟨{}⟩ p).settles.and (h.answers ⟨{}⟩ p)).exists
  obtain ⟨response, hcode, rfl⟩ := hrefuses (clickedResult_eq_none.mp hnone)
  rw [htrace] at hfirst
  cases List.singleton_prefix_cons_iff.mp hfirst
  cases hcode

/-- **The clicked result is selected** if and only if the list has at the index modulo 2³² what it
    has at the index. -/
theorem clicked_iff (hdoc : lib.json.Documented)
    (h : ReportsClick lib.json request results clicked) :
    SelectsClicked lib request results clicked ↔
      results[(clicked % 2 ^ 32).toNat]? = clickedResult results clicked := by
  constructor
  · intro hselects
    obtain ⟨hsome, hnone⟩ := reportedLink_eq hdoc h
    cases hclicked : clickedResult results clicked with
    | some link =>
      have htaken := hselects.takes link hclicked
      cases hcut : results[(clicked % 2 ^ 32).toNat]? with
      | none => cases htaken.symm.trans (hnone hcut)
      | some link' => rw [Except.ok.inj (htaken.symm.trans (hsome link' hcut))]
    | none =>
      by_contra hcut
      obtain ⟨link', hlink'⟩ := Option.ne_none_iff_exists'.mp hcut
      exact hselects.refuses hclicked link' (hsome link' hlink')
  · intro hsame
    obtain ⟨hsome, hnone⟩ := reportedLink_clicked hdoc h hsame
    refine ⟨hsome, fun worker p => ?_⟩
    unfold v0reportSearchResults
    cases hclicked : clickedResult results clicked with
    | none =>
      obtain ⟨response, hrefused, hcode⟩ := hnone hclicked
      rw [hrefused]
      refine (reply_leaves worker response p).settles.mono fun p' hp' => ?_
      exact ⟨_, hp'.trace, nofun, fun _ => ⟨response, hcode, rfl⟩⟩
    | some link =>
      -- There is a clicked result, so the other half promises nothing.
      have hin : ¬ ¬ (0 ≤ clicked ∧ clicked < results.length) := by
        intro hout
        cases hclicked.symm.trans (clickedResult_eq_none.mpr hout)
      rw [hsome link hclicked]
      refine (reportLink_leaves worker link p).settles.mono ?_
      rintro p' (hp' | ⟨hne, report, hreport, hp'⟩)
      · refine ⟨_, hp'.trace, ?_, fun hout => absurd hout hin⟩
        exact fun link' _ => .inl rfl
      · refine ⟨_, hp'.trace, ?_, fun hout => absurd hout hin⟩
        rintro link' ⟨⟩
        exact .inr ⟨hne, report, hreport, rfl⟩

end

/-- A body with the results shown and the index of the clicked one. -/
def clickBody (results : List Bytes) (clicked : ℕ) : Json :=
  .object [(bytes "clicked", .unsigned clicked), (bytes "results", .array (results.map .string))]

/-- A JSON library whose parser finds this body. -/
def clickJson (results : List Bytes) (clicked : ℕ) : Nlohmann :=
  { Nlohmann.plain with parse := fun _ => .ok (clickBody results clicked) }

theorem utf8Elems_strings {results : List Bytes} (h : ∀ r ∈ results, isUtf8 r = true) :
    Json.utf8Elems (results.map .string) = true := by
  induction results with
  | nil => rfl
  | cons r results ih =>
    rw [List.map_cons, Json.utf8Elems, Json.utf8, h r (List.mem_cons_self ..),
      ih fun r' hr' => h r' (List.mem_cons_of_mem _ hr')]
    rfl

/-- The library of the request behaves as documented, since its one text is parsed correctly. -/
theorem clickJson_documented {results : List Bytes} (h : ∀ r ∈ results, isUtf8 r = true)
    (clicked : ℕ) : (clickJson results clicked).Documented where
  dump_ok := Nlohmann.plain_documented.dump_ok
  dump_throws := Nlohmann.plain_documented.dump_throws
  dump_head := Nlohmann.plain_documented.dump_head
  parse_utf8 text j hj := by
    cases hj
    have hkeys : isUtf8 (bytes "clicked") = true ∧ isUtf8 (bytes "results") = true := by
      decide +kernel
    simp only [clickBody, Json.utf8, Json.utf8Members, hkeys, utf8Elems_strings h, Bool.and_self]
  atKey_iff := Nlohmann.plain_documented.atKey_iff
  atIndex_iff := Nlohmann.plain_documented.atIndex_iff
  toUnsigned_integer := Nlohmann.plain_documented.toUnsigned_integer
  toUnsigned_unsigned := Nlohmann.plain_documented.toUnsigned_unsigned
  toBytes_iff := Nlohmann.plain_documented.toBytes_iff

/-- The request with that body. -/
def clickRequest (results : List Bytes) (clicked : ℕ) : HTTPRequest where
  method := .POST
  resource := bytes "/v0/ReportSearchResults"
  version := bytes "HTTP/1.1"
  headers := (∅ : Headers).insert (bytes "content-type") (bytes "application/json")
  body := (clickBody results clicked).render none 0

/-- The request is one that reports a click. -/
theorem clickRequest_reports (results : List Bytes) (clicked : ℕ) :
    ReportsClick (clickJson results clicked) (clickRequest results clicked) results clicked :=
  ⟨rfl, Finmap.lookup_insert _, _, _, rfl, rfl, rfl, .inr ⟨clicked, rfl, rfl⟩⟩

/-- The library with that parser. -/
noncomputable def clickLibrary (results : List Bytes) (clicked : ℕ) : Library :=
  { Library.plain with json := clickJson results clicked }

/-- Three results. -/
def threeResults : List Bytes := [bytes "a", bytes "b", bytes "c"]

/-- A click on the last one of them. -/
theorem clicked_iff_last : SelectsClicked (clickLibrary threeResults 2)
    (clickRequest threeResults 2) threeResults (2 : ℕ) :=
  (@clicked_iff (clickLibrary threeResults 2) (clickRequest threeResults 2) threeResults (2 : ℕ)
    (clickJson_documented (by decide +kernel) 2) (clickRequest_reports threeResults 2)).mpr
      (by decide +kernel)

/-- The index 2³² behind the end of a list of one result: the handler takes the first one, and
    answers with 200. -/
theorem clicked_counterexample :
    let lib := clickLibrary [bytes "a"] (2 ^ 32)
    let request := clickRequest [bytes "a"] (2 ^ 32)
    ReportsClick lib.json request [bytes "a"] (2 ^ 32 : ℕ) ∧
    ¬ SelectsClicked lib request [bytes "a"] (2 ^ 32 : ℕ) ∧
    reportedLink lib.json request = .ok (bytes "a") ∧
    ∀ (worker : HTTPWorker) (p : Process),
      (worker.v0reportSearchResults lib request).Throughout p
        fun p' => p.trace ++ [.handed reportedResponse] <+: p'.trace := by
  intro lib request
  have hreports : ReportsClick lib.json request [bytes "a"] (2 ^ 32 : ℕ) :=
    clickRequest_reports [bytes "a"] (2 ^ 32)
  have hlink : reportedLink lib.json request = .ok (bytes "a") :=
    (reportedLink_eq (clickJson_documented (by decide +kernel) (2 ^ 32)) hreports).1 _ rfl
  refine ⟨hreports, ?_, hlink, answered_of_reportedLink hlink⟩
  exact fun hselects => hselects.refuses rfl _ hlink

/-! ### A click -/

/-- The text of a request that clicks the second one of three results. -/
def clickText : Bytes :=
  bytes "POST /v0/ReportSearchResults HTTP/1.1\r\nContent-Type: application/json\r\n" ++
    bytes "Content-Length: 37\r\n\r\n" ++ (clickRequest threeResults 1).body

/-- What is read from that text. -/
def clickRead : HTTPRequest :=
  { clickRequest threeResults 1 with
    headers := (clickRequest threeResults 1).headers.insert contentLength (bytes "37") }

/-- A library that finds the click in it. -/
noncomputable def secondClicked : Library := clickLibrary threeResults 1

/-- So does the one that finds the second link. -/
theorem secondClicked_documented : secondClicked.json.Documented :=
  clickJson_documented (by decide +kernel) 1

/-- The click passes the checks of `run`. -/
theorem checkRequest_click :
    checkRequest secondClicked.json (some clickRead) = .ok clickRead := by
  refine checkParsed_admitted _ ⟨rfl, .inr ⟨bytes "37", Finmap.lookup_insert _, 37, ?_, ?_⟩⟩
  · decide +kernel
  · decide +kernel

/-- The second link is the one to be reported. -/
theorem reportedLink_click : reportedLink secondClicked.json clickRead = .ok (bytes "b") := by
  obtain ⟨hmethod, htype, hbody⟩ := clickRequest_reports threeResults 1
  have hne : bytes "content-type" ≠ contentLength := by decide
  have hclick : ReportsClick secondClicked.json clickRead threeResults (1 : ℕ) :=
    ⟨hmethod, (Finmap.lookup_insert_of_ne _ hne).trans htype, hbody⟩
  exact (reportedLink_eq secondClicked_documented hclick).1 _ rfl

set_option maxRecDepth 2000 in
/-- It is what is read. -/
theorem parses_click : ∃ s, parseRequest.Returns (SocketStream.ofSocket [some clickText])
    (.ok (some clickRead) s) := ⟨_, 400, by rfl⟩

end Evaluation
