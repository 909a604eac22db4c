import Evaluation.ParserRefines

namespace Evaluation

open Lib SocketStream

/-!
# Serialised messages are read back

What `toString` writes and `requestOf` / `responseOf` read, line by line: the header lines of
a message come back as the same headers with their names in lower case, whatever the order in
which they were written, and the body comes back byte for byte.

* `fields_fieldLine` — one header line;
* `fields_toString` — all of them, the empty line and the body;
* `parseRequest_toString`, `parseResponse_toString` — the two round trips, over any chunks;
* `parseRequest_normalises` — whatever `parseRequest` returns is read back unchanged.
-/

/-! ### Messages that can be written -/

/-- A run of bytes that are no blanks. -/
def IsWord (w : Bytes) : Prop := w ≠ [] ∧ ∀ c ∈ w, isspace c = false

/-- A word has no newline in it. -/
theorem newline_not_mem_word {w : Bytes} (hw : IsWord w) : newline ∉ w :=
  fun hmem => ne_newline_of_isspace (hw.2 _ hmem) rfl

/-- A body that the parsers can tell from no body. -/
def Visible (body : Bytes) : Prop := body = [] ∨ ∃ c ∈ body, isspace c = false

instance (body : Bytes) : Decidable (Visible body) :=
  inferInstanceAs (Decidable (_ ∨ _))

/-- A status that can stand in a status line. -/
structure IsStatus (status : Bytes) : Prop where
  ne_nil : status ≠ []
  newline : newline ∉ status
  head : ∀ c ∈ status.head?, isspace c = false

/-- A header that a line can carry. -/
structure Fits (f : Field) : Prop where
  name_colon : colon ∉ f.1
  name_newline : newline ∉ f.1
  value_newline : newline ∉ f.2
  value_head : ∀ c ∈ f.2.head?, isspace c = false

/-- Headers that a message can carry: lower-casing makes no two names equal. -/
structure Portable (hs : Headers) : Prop where
  fits : ∀ name value, hs.lookup name = some value → Fits ⟨name, value⟩
  distinct : ∀ n ∈ hs, ∀ n' ∈ hs, lowerName n = lowerName n' → n = n'

/-- A request that the parser reads back. -/
structure HTTPRequest.Sendable (r : HTTPRequest) : Prop where
  method : r.method ≠ .UNKNOWN
  resource : IsWord r.resource
  version : IsWord r.version
  headers : Portable r.headers
  body : Visible r.body

/-- A response that the parser reads back. -/
structure HTTPResponse.Sendable (r : HTTPResponse) : Prop where
  version : IsWord r.version
  code : r.code ≠ 0
  status : IsStatus r.status
  headers : Portable r.headers
  body : Visible r.body

/-- Headers given by a list of their fields, whose lower-cased names all differ. -/
theorem portable_of_lists {order : List Field} {hs : Headers} (ho : Lists order hs)
    (hfits : ∀ f ∈ order, Fits f) (hdistinct : (order.map fun f => lowerName f.1).Nodup) :
    Portable hs where
  fits name value h := hfits _ ((mem_of_lists ho ⟨name, value⟩).mpr h)
  distinct n hn n' hn' heq := by
    obtain ⟨v, hv⟩ := Finmap.mem_iff.mp hn
    obtain ⟨v', hv'⟩ := Finmap.mem_iff.mp hn'
    have hf := (mem_of_lists ho ⟨n, v⟩).mpr hv
    have hf' := (mem_of_lists ho ⟨n', v'⟩).mpr hv'
    exact congrArg Sigma.fst (List.inj_on_of_nodup_map hdistinct hf hf' heq)

/-! ### Lines -/

/-- The first line of a text that starts with a line and its CRLF. -/
theorem firstLine_crlf {line : Bytes} (h : newline ∉ line) (T : Bytes) :
    firstLine (line ++ (crlf ++ T)) = line ++ [carriageReturn] ∧
      afterFirstLine (line ++ (crlf ++ T)) = T := by
  have hline : newline ∉ line ++ [carriageReturn] := by simpa using ⟨h, by decide +kernel⟩
  have hsplit : line ++ (crlf ++ T) = (line ++ [carriageReturn]) ++ newline :: T := by
    simp only [crlf, List.append_assoc, List.cons_append, List.nil_append]
  rw [hsplit]
  exact ⟨lineOf_append_cons hline T, afterLine_append_cons hline T⟩

/-- **One header line** adds its header. -/
theorem fields_line (hs : Headers) {line : Bytes} (hcolon : colon ∈ line) (hnl : newline ∉ line)
    (T : Bytes) :
    fields hs (line ++ (crlf ++ T)) = fields (hs.insert (lowerName (lineOf colon line))
      ((afterLine colon line).dropWhile isspace)) T := by
  obtain ⟨hline, hrest⟩ := firstLine_crlf hnl T
  have hblank : (line ++ (crlf ++ T)).all isspace = false := by
    rw [List.all_eq_false]
    exact ⟨colon, by simp [hcolon], by simp⟩
  have hsplit : splitField (popCR (firstLine (line ++ (crlf ++ T))))
      = some ⟨lowerName (lineOf colon line), (afterLine colon line).dropWhile isspace⟩ := by
    rw [hline, popCR_append_cr, splitField, if_pos hcolon]
  rw [fields_field hblank hsplit, hrest]

/-- A header that fits is read back as it was written, with its name in lower case. -/
theorem fields_fieldLine (hs : Headers) {f : Field} (hf : Fits f) (T : Bytes) :
    fields hs (fieldLine f ++ T) = fields (hs.insert (lowerName f.1) f.2) T := by
  obtain ⟨name, value⟩ := f
  have hassoc : fieldLine ⟨name, value⟩ ++ T
      = (name ++ colon :: space :: value) ++ (crlf ++ T) := by
    show name ++ [colon, space] ++ value ++ crlf ++ T = _
    simp only [List.append_assoc, List.cons_append, List.nil_append]
  have hnl : newline ∉ name ++ colon :: space :: value := by
    intro h
    rcases List.mem_append.mp h with h | h
    · exact hf.name_newline h
    · have h' : newline ∈ value := by simpa [newline, colon, space] using h
      exact hf.value_newline h'
  -- The blank behind the colon is stripped, and no more: the value does not begin with one.
  have hvalue : (space :: value).dropWhile isspace = value := by
    rw [List.dropWhile_cons_of_pos isspace_space]
    cases hv : value with
    | nil => rfl
    | cons c cs =>
      have hc := hf.value_head c (by simp [hv])
      rw [List.dropWhile_cons_of_neg (by rw [hc]; exact Bool.false_ne_true)]
  rw [hassoc, fields_line hs (by simp) hnl, lineOf_append_cons hf.name_colon,
    afterLine_append_cons hf.name_colon, hvalue]

/-- All header lines. -/
theorem fields_headers (hs : Headers) {order : List Field} (h : ∀ f ∈ order, Fits f)
    (T : Bytes) :
    fields hs (order.flatMap fieldLine ++ T)
      = fields (insertAll hs (order.map fun f => ⟨lowerName f.1, f.2⟩)) T := by
  induction order generalizing hs with
  | nil => rfl
  | cons f fs ih =>
    rw [List.flatMap_cons, List.append_assoc, fields_fieldLine hs (h f (by simp)),
      ih _ fun g hg => h g (List.mem_cons_of_mem _ hg)]
    rfl

/-- The empty line ends the headers, and the body follows. -/
theorem fields_crlf (hs : Headers) {body : Bytes} (h : Visible body) :
    (fields hs (crlf ++ body)).1 = hs ∧ bodyOf (fields hs (crlf ++ body)).2 = body := by
  rcases h with rfl | ⟨c, hc, hspace⟩
  · rw [List.append_nil, fields_blank rfl]
    exact ⟨rfl, rfl⟩
  · obtain ⟨hline, hrest⟩ := @firstLine_crlf [] (by simp) body
    rw [List.nil_append] at hline hrest
    have hbody : body.all isspace = false := by
      rw [List.all_eq_false]
      exact ⟨c, hc, by rw [hspace]; exact Bool.false_ne_true⟩
    have hblank : (crlf ++ body).all isspace = false := by
      rw [List.all_append, hbody, Bool.and_false]
    have hsplit : splitField (popCR (firstLine (crlf ++ body))) = none := by
      rw [hline, List.nil_append]
      rfl
    rw [fields_noColon hblank hsplit, hrest]
    exact ⟨rfl, if_neg (by rw [hbody]; exact Bool.false_ne_true)⟩

/-- **Headers and body** of a serialised message. -/
theorem fields_toString {hs : Headers} {order : List Field} {body : Bytes} (hp : Portable hs)
    (ho : Lists order hs) (hb : Visible body) :
    ∃ hs' rest, fields ∅ (order.flatMap fieldLine ++ (crlf ++ body)) = (hs', rest) ∧
      LowerCased hs hs' ∧ bodyOf rest = body := by
  have hfits : ∀ f ∈ order, Fits f := fun f hf => hp.fits f.1 f.2 ((mem_of_lists ho f).mp hf)
  obtain ⟨hfst, hsnd⟩ := fields_crlf (insertAll ∅ (order.map fun f => ⟨lowerName f.1, f.2⟩)) hb
  refine ⟨_, _, rfl, ?_, ?_⟩
  · rw [fields_headers ∅ hfits, hfst]
    exact lowerCased_insertAll ho hp.distinct
  · rw [fields_headers ∅ hfits, hsnd]

/-! ### Requests -/

/-- What `toString` writes denotes the request, with the names of its headers in lower case. -/
theorem requestOf_toString {r : HTTPRequest} (h : r.Sendable) {order : List Field}
    (ho : Lists order r.headers) :
    ∃ hs', LowerCased r.headers hs' ∧
      requestOf (r.toString order) = some { r with headers := hs' } := by
  obtain ⟨hs', rest, hfields, hlower, hbody⟩ := fields_toString h.headers ho h.body
  have hmethod := methodToString_word r.method
  -- The request line.
  have hnl : newline ∉ r.method.methodToString ++ space :: (r.resource ++ space :: r.version) := by
    simp only [List.mem_append, List.mem_cons, not_or]
    exact ⟨newline_not_mem_word hmethod, by decide +kernel, newline_not_mem_word h.resource,
      by decide +kernel, newline_not_mem_word h.version⟩
  have htext : r.toString order
      = (r.method.methodToString ++ space :: (r.resource ++ space :: r.version))
        ++ (crlf ++ (order.flatMap fieldLine ++ (crlf ++ r.body))) := by
    simp only [HTTPRequest.toString, List.append_assoc, List.cons_append, List.nil_append]
  obtain ⟨hline, hafter⟩ := firstLine_crlf hnl (order.flatMap fieldLine ++ (crlf ++ r.body))
  have htokens : tokens ((r.method.methodToString ++ space :: (r.resource ++ space :: r.version))
      ++ [carriageReturn]) = [r.method.methodToString, r.resource, r.version] := by
    rw [tokens, List.append_assoc, List.cons_append, List.append_assoc, List.cons_append,
      words_append_cons hmethod.1 hmethod.2 isspace_space,
      words_append_cons h.resource.1 h.resource.2 isspace_space,
      words_append_cons h.version.1 h.version.2 isspace_carriageReturn, words_nil]
  have hrequest : requestLineOf (firstLine (r.toString order))
      = some (r.method, r.resource, r.version) := by
    rw [htext, hline, requestLineOf, htokens]
    simp only [stringToMethod_methodToString h.method, h.method, if_false]
  refine ⟨hs', hlower, ?_⟩
  rw [requestOf, hrequest, htext, hafter, Option.map_some]
  simp only [hfields, hbody]

/-- **Request round trip.** -/
theorem parseRequest_toString (r : HTTPRequest) (h : r.Sendable) (order : List Field)
    (ho : Lists order r.headers) (rs : List RecvResult) (hrs : delivered rs = r.toString order)
    (hlen : (r.toString order).length < 2 ^ 32 - 1) :
    ∃ s' hs', parseRequest.Returns (ofSocket rs) (.ok (some { r with headers := hs' }) s') ∧
      LowerCased r.headers hs' := by
  obtain ⟨hs', hlower, hrequest⟩ := requestOf_toString h ho
  obtain ⟨s', hret⟩ := parseRequest_returns rs (by rw [hrs]; exact hlen)
  rw [hrs, hrequest] at hret
  exact ⟨s', hs', hret, hlower⟩

/-- A header value with a colon, a header with no name, and a body of several lines that starts
    with one. -/
theorem parseRequest_toString_post :
    let r : HTTPRequest := {
      method := .POST, resource := bytes "/x", version := bytes "HTTP/1.1"
      headers := ((∅ : Headers).insert (bytes "") (bytes "v\r")).insert (bytes "A-b") (bytes "c:d")
      body := bytes "\r\n x" }
    ∃ s' hs', parseRequest.Returns
      (ofSocket [some (bytes "POST /x HT"), some (bytes "TP/1.1\r\nA-b: c:d\r"),
        some (bytes "\n: v\r\r\n\r\n\r\n"), some (bytes " x"), none])
      (.ok (some { r with headers := hs' }) s') ∧ LowerCased r.headers hs' := by
  intro r
  let order : List Field := [⟨bytes "A-b", bytes "c:d"⟩, ⟨bytes "", bytes "v\r"⟩]
  have ho : Lists order r.headers := rfl
  -- An empty name, a value that ends in CR, a name with capitals: each of them fits.
  have hfits : ∀ f ∈ order, Fits f := by
    intro f hf
    rcases List.mem_pair.mp hf with rfl | rfl
    · exact ⟨by decide +kernel, by decide +kernel, by decide +kernel, by decide +kernel⟩
    · exact ⟨by decide +kernel, by decide +kernel, by decide +kernel, by decide +kernel⟩
  have hr : r.Sendable := {
    method := by decide +kernel
    resource := ⟨by decide +kernel, by decide +kernel⟩
    version := ⟨by decide +kernel, by decide +kernel⟩
    headers := portable_of_lists ho hfits (by decide +kernel)
    body := by decide +kernel }
  exact parseRequest_toString r hr order ho _ (by decide +kernel) (by decide +kernel)

/-! ### Responses -/

theorem firstWord_append_cons {w : Bytes} (hw : IsWord w) {a : UInt8} (ha : isspace a = true)
    (l : Bytes) : firstWord (w ++ a :: l) = w ∧ afterFirstWord (w ++ a :: l) = a :: l := by
  obtain ⟨c, cs, rfl⟩ := List.exists_cons_of_ne_nil hw.1
  have hc := hw.2 c (by simp)
  have hdrop : ((c :: cs) ++ a :: l).dropWhile isspace = (c :: cs) ++ a :: l := by
    rw [List.cons_append, List.dropWhile_cons_of_neg (by rw [hc]; exact Bool.false_ne_true)]
  have hall : ∀ b ∈ c :: cs, (!isspace b) = true := fun b hb => by rw [hw.2 b hb]; rfl
  have hhead : ∀ b ∈ (a :: l).head?, (!isspace b) = false := by
    intro b hb
    obtain rfl : a = b := by simpa using hb
    rw [ha]
    rfl
  rw [firstWord, afterFirstWord, hdrop]
  exact ⟨takeWhile_append_of_head hall hhead, dropWhile_append_of_head hall hhead⟩

/-- A blank in front changes no word. -/
theorem firstWord_cons_blank {a : UInt8} (ha : isspace a = true) (l : Bytes) :
    firstWord (a :: l) = firstWord l ∧ afterFirstWord (a :: l) = afterFirstWord l := by
  rw [firstWord, afterFirstWord, List.dropWhile_cons_of_pos ha]
  exact ⟨rfl, rfl⟩

/-- A code as the decimal text that `operator<<` writes. -/
theorem isWord_toDecimal (n : ℕ) : IsWord (toDecimal n) :=
  ⟨toDecimal_ne_nil n, fun c hc => isspace_eq_false_of_isdigit c (isdigit_of_mem_toDecimal hc)⟩

/-- The status line is read back. -/
theorem statusOf_toString {r : HTTPResponse} (h : r.Sendable) :
    statusOf ((r.version ++ space :: (toDecimal r.code.toNat ++ space :: r.status))
      ++ [carriageReturn]) = some (r.version, r.code, r.status) := by
  have hassoc :
      (r.version ++ space :: (toDecimal r.code.toNat ++ space :: r.status)) ++ [carriageReturn]
        = r.version ++ space ::
            (toDecimal r.code.toNat ++ space :: (r.status ++ [carriageReturn])) := by
    simp only [List.append_assoc, List.cons_append]
  obtain ⟨hv, hv'⟩ := firstWord_append_cons h.version isspace_space
    (toDecimal r.code.toNat ++ space :: (r.status ++ [carriageReturn]))
  obtain ⟨hb, hb'⟩ := firstWord_cons_blank isspace_space
    (toDecimal r.code.toNat ++ space :: (r.status ++ [carriageReturn]))
  obtain ⟨hc, hc'⟩ := firstWord_append_cons (isWord_toDecimal r.code.toNat) isspace_space
    (r.status ++ [carriageReturn])
  have hcode : stoul (toDecimal r.code.toNat) = .ok r.code.toNat :=
    stoul_toDecimal (lt_trans r.code.toNat_lt (by norm_num))
  -- What the code is followed by: one blank, the status, and the carriage return that is popped.
  have hstatus : (space :: (r.status ++ [carriageReturn])).dropWhile isspace
      = r.status ++ [carriageReturn] := by
    rw [List.dropWhile_cons_of_pos isspace_space]
    obtain ⟨c, cs, hcs⟩ := List.exists_cons_of_ne_nil h.status.ne_nil
    have hspace := h.status.head c (by rw [hcs]; rfl)
    have hnot : ¬ isspace c = true := by rw [hspace]; exact Bool.false_ne_true
    rw [hcs, List.cons_append, List.dropWhile_cons_of_neg hnot]
  rw [hassoc, statusOf, hv, hv', hb, hb', hc, hc', hcode, hstatus, popCR_append_cr]
  simp only [UInt32.ofNat_toNat, h.version.1, h.code, h.status.ne_nil, or_self, if_false]

/-- What `toString` writes denotes the response, with the names of its headers in lower
    case. -/
theorem responseOf_toString {r : HTTPResponse} (h : r.Sendable) {order : List Field}
    (ho : Lists order r.headers) :
    ∃ hs', LowerCased r.headers hs' ∧
      responseOf (r.toString order) = some { r with headers := hs' } := by
  obtain ⟨hs', rest, hfields, hlower, hbody⟩ := fields_toString h.headers ho h.body
  have hword := isWord_toDecimal r.code.toNat
  have hnl : newline ∉ r.version ++ space :: (toDecimal r.code.toNat ++ space :: r.status) := by
    simp only [List.mem_append, List.mem_cons, not_or]
    exact ⟨newline_not_mem_word h.version, by decide +kernel, newline_not_mem_word hword,
      by decide +kernel, h.status.newline⟩
  -- The first line of what is written is the status line, up to its CR LF.
  have htext : r.toString order
      = (r.version ++ space :: (toDecimal r.code.toNat ++ space :: r.status))
        ++ (crlf ++ (order.flatMap fieldLine ++ (crlf ++ r.body))) := by
    simp only [HTTPResponse.toString, List.append_assoc, List.cons_append, List.nil_append]
  obtain ⟨hline, hafter⟩ := firstLine_crlf hnl (order.flatMap fieldLine ++ (crlf ++ r.body))
  have hended : newline ∈ r.toString order := by
    rw [htext, crlf]
    simp
  refine ⟨hs', hlower, ?_⟩
  rw [responseOf, statusLineOf, if_pos hended, htext, hline, hafter, statusOf_toString h,
    Option.map_some]
  simp only [hfields, hbody]

/-- **Read back.** However its headers are ordered and its text is cut into chunks, parsing
    the text gives the response, with the names of its headers in lower case. -/
def HTTPResponse.ReadBack (r : HTTPResponse) : Prop :=
  ∀ order, Lists order r.headers → ∀ rs, delivered rs = r.toString order →
    (r.toString order).length < 2 ^ 32 - 1 →
    ∃ s' hs', parseResponse.Returns (ofSocket rs) (.ok (some { r with headers := hs' }) s') ∧
      LowerCased r.headers hs'

/-- A message can carry the two headers of a JSON body. -/
theorem portable_jsonHeaders (body : Bytes) : Portable (jsonHeaders body) := by
  have hdistinct :
      [lowerName (bytes "Content-Length"), lowerName (bytes "Content-Type")].Nodup := by
    decide
  have hword := isWord_toDecimal body.length
  refine portable_of_lists (lists_jsonHeaders body) ?_ hdistinct
  intro f hf
  rcases List.mem_pair.mp hf with rfl | rfl
  · have hname : colon ∉ bytes "Content-Length" ∧ newline ∉ bytes "Content-Length" := by
      decide +kernel
    exact ⟨hname.1, hname.2, newline_not_mem_word hword,
      fun c hc => hword.2 c (List.mem_of_mem_head? hc)⟩
  · exact ⟨by decide +kernel, by decide +kernel, by decide +kernel, by decide +kernel⟩

/-- A response with a JSON body. -/
theorem sendable_ofJson {json : Nlohmann} (hdoc : json.Documented) {code : UInt32}
    {status : Bytes} (hcode : code ≠ 0) (hstatus : IsStatus status) {body : Json}
    {r : HTTPResponse} (h : HTTPResponse.ofJson json code status body = .ok r) : r.Sendable := by
  unfold HTTPResponse.ofJson at h
  cases hdump : json.dump body (some 2) with
  | error e =>
    rw [hdump] at h
    cases h
  | ok text =>
    rw [hdump] at h
    cases h
    -- A dumped text is not blank, which is all that the body is asked for.
    obtain ⟨c, hc, hspace⟩ := hdoc.dump_head _ _ _ hdump
    exact {
      version := (⟨by decide +kernel, by decide +kernel⟩ : IsWord (bytes "HTTP/1.1"))
      code := hcode
      status := hstatus
      headers := portable_jsonHeaders text
      body := .inr ⟨c, List.mem_of_mem_head? hc, hspace⟩ }

/-- **Response round trip.**  In particular what the JSON constructor and `makeErrorResponse`
    build is read back. -/
theorem parseResponse_toString :
    (∀ r : HTTPResponse, r.Sendable → r.ReadBack) ∧
    (∀ json : Nlohmann, json.Documented → ∀ code status r, code ≠ 0 → IsStatus status →
      ((∃ body, HTTPResponse.ofJson json code status body = .ok r) ∨
        ∃ msg, HTTPResponse.makeErrorResponse json code status msg = .ok r) → r.ReadBack) := by
  have hsend : ∀ r : HTTPResponse, r.Sendable → r.ReadBack := by
    intro r h order ho rs hrs hlen
    obtain ⟨hs', hlower, hresponse⟩ := responseOf_toString h ho
    obtain ⟨s', hret⟩ := parseResponse_returns rs (by rw [hrs]; exact hlen)
    rw [hrs, hresponse] at hret
    exact ⟨s', hs', hret, hlower⟩
  refine ⟨hsend, ?_⟩
  intro json hdoc code status r hcode hstatus hbuilt
  apply hsend
  rcases hbuilt with ⟨body, h⟩ | ⟨msg, h⟩
  · exact sendable_ofJson hdoc hcode hstatus h
  · exact sendable_ofJson hdoc hcode hstatus h

/-- A response with no body in two chunks, and an error response. -/
theorem parseResponse_toString_ok :
    (∃ s' hs', parseResponse.Returns
        (ofSocket [some (bytes "HTTP/1.1 200 O"), some (bytes "K\r\n\r\n"), none])
        (.ok (some { HTTPResponse.ofStatus 200 (bytes "OK") with headers := hs' }) s') ∧
      LowerCased ∅ hs') ∧
    ∃ r, HTTPResponse.makeErrorResponse Nlohmann.plain 404 (bytes "Not Found") (bytes "no \"x\"")
        = .ok r ∧ r.ReadBack := by
  have hok : (HTTPResponse.ofStatus 200 (bytes "OK")).Sendable := {
    version := ⟨by decide +kernel, by decide +kernel⟩
    code := by decide +kernel
    status := ⟨by decide +kernel, by decide +kernel, by decide +kernel⟩
    headers := @portable_of_lists [] ∅ rfl (by simp) (by simp)
    body := by decide +kernel }
  have hnotFound : IsStatus (bytes "Not Found") :=
    ⟨by decide +kernel, by decide +kernel, by decide +kernel⟩
  obtain ⟨hread, hjson⟩ := parseResponse_toString
  refine ⟨hread _ hok [] rfl _ (by decide +kernel) (by decide +kernel), _, rfl, ?_⟩
  exact hjson Nlohmann.plain Nlohmann.plain_documented 404 (bytes "Not Found") _
    (by decide +kernel) hnotFound (.inr ⟨bytes "no \"x\"", rfl⟩)

/-! ### Parsing is a normalisation -/

/-- Headers in the form the parser gives them. -/
structure Parsed (hs : Headers) : Prop where
  fits : ∀ name value, hs.lookup name = some value → Fits ⟨name, value⟩
  lower : ∀ n ∈ hs, lowerName n = n

/-- One header line keeps that form. -/
theorem Parsed.insert {hs : Headers} (h : Parsed hs) {T : Bytes} {f : Field}
    (hf : splitField (popCR (firstLine T)) = some f) : Parsed (hs.insert f.1 f.2) := by
  obtain ⟨hcolon, hname, hvalue⟩ := splitField_some hf
  have hnl := newline_not_mem_popCR_firstLine T
  generalize popCR (firstLine T) = line at *
  -- The name ends before the first colon, and no line has a newline within.
  have hfits : Fits f := by
    refine ⟨?_, ?_, ?_, ?_⟩
    · rw [hname, colon_mem_lowerName_iff]
      exact not_mem_lineOf colon line
    · rw [hname, newline_mem_lowerName_iff]
      exact fun h => hnl ((List.takeWhile_prefix _).subset h)
    · rw [hvalue]
      intro h
      have hafter := List.mem_of_mem_tail ((List.dropWhile_suffix isspace).subset h)
      exact hnl ((List.dropWhile_suffix _).subset hafter)
    · rw [hvalue]
      exact head_dropWhile isspace _
  have hlower : lowerName f.1 = f.1 := by rw [hname, lowerName_lowerName]
  refine ⟨fun name value hlook => ?_, fun n hn => ?_⟩
  · -- The line's own field, or one that was there before.
    by_cases heq : name = f.1
    · subst heq
      rw [Finmap.lookup_insert, Option.some.injEq] at hlook
      subst hlook
      exact hfits
    · rw [Finmap.lookup_insert_of_ne _ heq] at hlook
      exact h.fits name value hlook
  · rcases Finmap.mem_insert.mp hn with rfl | hmem
    · exact hlower
    · exact h.lower n hmem

/-- All header lines do. -/
theorem parsed_fields {hs : Headers} (h : Parsed hs) (T : Bytes) : Parsed (fields hs T).1 := by
  induction hs, T using fields_induction with
  | blank hs T hblank =>
    rw [fields_blank hblank]
    exact h
  | stop hs T hblank hsplit =>
    rw [fields_noColon hblank hsplit]
    exact h
  | step hs T f hblank hsplit ih =>
    rw [fields_field hblank hsplit]
    exact ih (h.insert hsplit)

/-- No headers are parsed headers. -/
theorem parsed_empty : Parsed ∅ :=
  ⟨fun name value h => by simp at h, fun n hn => absurd hn Finmap.notMem_empty⟩

/-- What is taken as a body is none, or has a visible byte. -/
theorem visible_bodyOf (T : Bytes) : Visible (bodyOf T) := by
  unfold bodyOf
  split
  · exact .inl rfl
  · rename_i h
    rw [Bool.not_eq_true, List.all_eq_false] at h
    obtain ⟨c, hc, hspace⟩ := h
    exact .inr ⟨c, hc, by simpa using hspace⟩

/-- An accepted request line is made of its three words. -/
theorem requestLineOf_some {line resource version : Bytes} {m : Method}
    (h : requestLineOf line = some (m, resource, version)) :
    m ≠ .UNKNOWN ∧ tokens line = [m.methodToString, resource, version] := by
  unfold requestLineOf at h
  split at h
  · rename_i word r v htokens
    split at h
    · cases h
    · rename_i hm
      cases h
      refine ⟨hm, ?_⟩
      rw [htokens, ← (stringToMethod_eq_iff word _ hm).mp rfl]
  · cases h

/-- **The image of the parser**: requests that can be written, with lower-case names. -/
theorem requestOf_sendable {S : Bytes} {r : HTTPRequest} (h : requestOf S = some r) :
    r.Sendable ∧ Parsed r.headers := by
  rw [requestOf, Option.map_eq_some_iff] at h
  obtain ⟨⟨m, resource, version⟩, hline, rfl⟩ := h
  obtain ⟨hm, htokens⟩ := requestLineOf_some hline
  have hwords : ∀ w ∈ [m.methodToString, resource, version], IsWord w := by
    intro w hw
    rw [← htokens] at hw
    exact of_mem_words hw
  have hparsed := parsed_fields parsed_empty (afterFirstLine S)
  refine ⟨⟨hm, hwords _ (by simp), hwords _ (by simp), ⟨hparsed.fits, ?_⟩, visible_bodyOf _⟩,
    hparsed⟩
  intro n hn n' hn' heq
  rwa [hparsed.lower n hn, hparsed.lower n' hn'] at heq

/-- Lower-casing changes nothing in parsed headers. -/
theorem Parsed.eq_of_lowerCased {hs hs' : Headers} (h : Parsed hs) (hl : LowerCased hs hs') :
    hs' = hs := by
  apply Finmap.ext_lookup
  intro name
  apply Option.ext
  intro value
  show hs'.lookup name = some value ↔ hs.lookup name = some value
  rw [hl name value]
  constructor
  · rintro ⟨original, hlook, rfl⟩
    rwa [h.lower original (Finmap.mem_of_lookup_eq_some hlook)]
  · intro hlook
    exact ⟨name, hlook, h.lower name (Finmap.mem_of_lookup_eq_some hlook)⟩

/-- **Parsing is a normalisation.**  Whatever `parseRequest` has made of a text, writing it out
    and parsing that gives the same request again. -/
theorem parseRequest_normalises (rs : List RecvResult) (r : HTTPRequest) (s' : SocketStream)
    (hret : parseRequest.Returns (ofSocket rs) (.ok (some r) s'))
    (hlen : (delivered rs).length < 2 ^ 32 - 1) (order : List Field)
    (ho : Lists order r.headers) (rs' : List RecvResult)
    (hrs' : delivered rs' = r.toString order) (hlen' : (r.toString order).length < 2 ^ 32 - 1) :
    ∃ s'', parseRequest.Returns (ofSocket rs') (.ok (some r) s'') := by
  obtain ⟨s1, hret1⟩ := parseRequest_returns rs hlen
  have hsome : requestOf (delivered rs) = some r := (Outcome.ok.inj (hret1.unique hret)).1
  obtain ⟨hsend, hparsed⟩ := requestOf_sendable hsome
  obtain ⟨hs', hlower, hrequest⟩ := requestOf_toString hsend ho
  obtain ⟨s'', hret'⟩ := parseRequest_returns rs' (by rw [hrs']; exact hlen')
  rw [hrs', hrequest, hparsed.eq_of_lowerCased hlower] at hret'
  exact ⟨s'', hret'⟩

/-- A request with a repeated header, one with no name and a missing last line end. -/
theorem parseRequest_normalises_get :
    let r : HTTPRequest := {
      method := .GET, resource := bytes "/a", version := bytes "v"
      headers := ((∅ : Headers).insert [] []).insert (bytes "x") (bytes "2")
      body := [] }
    ∃ s'', parseRequest.Returns
      (ofSocket [some (r.toString [⟨bytes "x", bytes "2"⟩, ⟨[], []⟩])]) (.ok (some r) s'') := by
  intro r
  exact parseRequest_normalises [some (bytes " GET /a  v \nX:1\n:\nx: 2\r")] r _ ⟨100, rfl⟩
    (by decide +kernel) _ rfl _ (by decide +kernel) (by decide +kernel)

end Evaluation
