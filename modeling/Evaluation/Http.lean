import Mathlib.Data.Finmap
import Evaluation.Json

namespace Evaluation

/-!
# HTTP messages

The structures of `HTTPServer.h`, their constructors and their serialisation.  The headers are a
finite map, as an `unordered_map` is: it has no order of its own, and `toString` emits its entries
in an order that the library chooses.  That order is a parameter here, and `Lists order hs` says
that it is one of the possible ones.
-/

/-- `HTTPRequest::Method`. -/
inductive Method where
  | GET | HEAD | POST | PUT | DELETE | CONNECT | OPTIONS | TRACE | PATCH | UNKNOWN
  deriving DecidableEq, Repr

def Method.methodToString : Method → Bytes
  | .GET => bytes "GET"
  | .HEAD => bytes "HEAD"
  | .POST => bytes "POST"
  | .PUT => bytes "PUT"
  | .DELETE => bytes "DELETE"
  | .CONNECT => bytes "CONNECT"
  | .OPTIONS => bytes "OPTIONS"
  | .TRACE => bytes "TRACE"
  | .PATCH => bytes "PATCH"
  | .UNKNOWN => bytes "<UNKNOWN>"

def Method.stringToMethod (str : Bytes) : Method :=
  if str = bytes "GET" then .GET
  else if str = bytes "HEAD" then .HEAD
  else if str = bytes "POST" then .POST
  else if str = bytes "PUT" then .PUT
  else if str = bytes "DELETE" then .DELETE
  else if str = bytes "CONNECT" then .CONNECT
  else if str = bytes "OPTIONS" then .OPTIONS
  else if str = bytes "TRACE" then .TRACE
  else if str = bytes "PATCH" then .PATCH
  else .UNKNOWN

/-- A header's name and value. -/
abbrev Field := (_ : Bytes) × Bytes

/-- `std::unordered_map<std::string, std::string>`. -/
abbrev Headers := Finmap fun _ : Bytes => Bytes

/-- The list holds the entries of the map, each once. -/
def Lists (order : List Field) (hs : Headers) : Prop := (order : Multiset Field) = hs.entries

structure HTTPRequest where
  method : Method
  resource : Bytes
  version : Bytes
  headers : Headers
  body : Bytes
  deriving DecidableEq

structure HTTPResponse where
  version : Bytes
  code : UInt32
  status : Bytes
  headers : Headers
  body : Bytes
  deriving DecidableEq

/-- The two headers that go with a JSON body. -/
def jsonHeaders (body : Bytes) : Headers :=
  ((∅ : Headers).insert (bytes "Content-Type") (bytes "application/json")).insert
    (bytes "Content-Length") (toDecimal body.length)

/-- `HTTPRequest(method, resource, body)`. -/
def HTTPRequest.ofJson (json : Nlohmann) (method : Method) (resource : Bytes) (body : Json) :
    Except Exn HTTPRequest := do
  let text ← json.dump body none
  return {
    method, resource
    version := bytes "HTTP/1.1"
    headers := jsonHeaders text
    body := text }

/-- `HTTPResponse(code, status)`. -/
def HTTPResponse.ofStatus (code : UInt32) (status : Bytes) : HTTPResponse where
  version := bytes "HTTP/1.1"
  code := code
  status := status
  headers := ∅
  body := []

/-- `HTTPResponse(code, status, body)`. -/
def HTTPResponse.ofJson (json : Nlohmann) (code : UInt32) (status : Bytes) (body : Json) :
    Except Exn HTTPResponse := do
  let text ← json.dump body (some 2)
  return { HTTPResponse.ofStatus code status with headers := jsonHeaders text, body := text }

def HTTPResponse.makeErrorResponse (json : Nlohmann) (code : UInt32) (status msg : Bytes) :
    Except Exn HTTPResponse :=
  HTTPResponse.ofJson json code status
    (.object [(bytes "error", .string status), (bytes "message", .string msg)])

/-- `"\r\n"`. -/
def crlf : Bytes := [carriageReturn, newline]

/-- `header << ": " << value << "\r\n"`. -/
def fieldLine (f : Field) : Bytes := f.1 ++ bytes ": " ++ f.2 ++ crlf

def HTTPRequest.toString (order : List Field) (request : HTTPRequest) : Bytes :=
  request.method.methodToString ++ [space] ++ request.resource ++ [space] ++ request.version
    ++ crlf ++ order.flatMap fieldLine ++ crlf ++ request.body

def HTTPResponse.toString (order : List Field) (response : HTTPResponse) : Bytes :=
  response.version ++ [space] ++ toDecimal response.code.toNat ++ [space] ++ response.status
    ++ crlf ++ order.flatMap fieldLine ++ crlf ++ response.body

/-! ### The order of the headers -/

/-- The two headers of a JSON body. -/
theorem lists_jsonHeaders (body : Bytes) : Lists [⟨bytes "Content-Length", toDecimal body.length⟩,
    ⟨bytes "Content-Type", bytes "application/json"⟩] (jsonHeaders body) := rfl

/-- In whatever order they are written, the headers take the same number of bytes. -/
theorem length_fieldLines {order order' : List Field} {hs : Headers} (h : Lists order hs)
    (h' : Lists order' hs) :
    (order.flatMap fieldLine).length = (order'.flatMap fieldLine).length :=
  ((Multiset.coe_eq_coe.mp (h.trans h'.symm)).flatMap_right fieldLine).length_eq

/-! ### JSON responses -/

/-- A response with a JSON body can be built, and has the code that it is given. -/
theorem ofJson_ok {json : Nlohmann} (hdoc : json.Documented) (code : UInt32) (status : Bytes)
    {body : Json} (hbody : body.utf8 = true) :
    ∃ response, HTTPResponse.ofJson json code status body = .ok response ∧
      response.code = code := by
  obtain ⟨text, htext⟩ := hdoc.dump_ok body (some 2) hbody
  refine ⟨{ HTTPResponse.ofStatus code status with headers := jsonHeaders text, body := text },
    ?_, rfl⟩
  rw [HTTPResponse.ofJson, htext]
  rfl

/-- An error response has the code that it is given. -/
theorem makeErrorResponse_code {json : Nlohmann} {code : UInt32} {status msg : Bytes}
    {response : HTTPResponse}
    (h : HTTPResponse.makeErrorResponse json code status msg = .ok response) :
    response.code = code := by
  unfold HTTPResponse.makeErrorResponse HTTPResponse.ofJson at h
  cases htext : json.dump _ _ with
  | error e =>
    rw [htext] at h
    cases h
  | ok text =>
    rw [htext] at h
    cases h
    rfl

/-- The body of an error response is valid UTF-8 if the two texts in it are. -/
theorem errorBody_utf8 (status msg : Bytes) :
    (Json.object [(bytes "error", .string status), (bytes "message", .string msg)]).utf8
      = (isUtf8 status && isUtf8 msg) := by
  have herror : isUtf8 (bytes "error") = true := by decide +kernel
  have hmessage : isUtf8 (bytes "message") = true := by decide +kernel
  simp only [Json.utf8, Json.utf8Members, herror, hmessage, Bool.true_and, Bool.and_true]

/-- An error response can be built of valid UTF-8. -/
theorem makeErrorResponse_ok {json : Nlohmann} (hdoc : json.Documented) (code : UInt32)
    {status msg : Bytes} (hstatus : isUtf8 status = true) (hmsg : isUtf8 msg = true) :
    ∃ response, HTTPResponse.makeErrorResponse json code status msg = .ok response ∧
      response.code = code :=
  ofJson_ok hdoc code status (by rw [errorBody_utf8, hstatus, hmsg]; rfl)

/-- A message that is not valid UTF-8 makes `dump` throw. -/
theorem makeErrorResponse_throws {json : Nlohmann} (hdoc : json.Documented) (code : UInt32)
    {status msg : Bytes} (hmsg : isUtf8 msg = false) :
    HTTPResponse.makeErrorResponse json code status msg = .error .typeError := by
  rw [HTTPResponse.makeErrorResponse, HTTPResponse.ofJson,
    hdoc.dump_throws _ _ (by rw [errorBody_utf8, hmsg, Bool.and_false])]
  rfl

/-! ### Method names -/

/-- The nine methods have nine names, and no other text is one. -/
theorem stringToMethod_eq_iff (str : Bytes) (m : Method) (hm : m ≠ .UNKNOWN) :
    Method.stringToMethod str = m ↔ str = m.methodToString := by
  constructor
  · intro h
    rw [Method.stringToMethod] at h
    -- One comparison for each of the nine names.
    iterate 9
      rcases ite_eq_iff.mp h with ⟨hname, rfl⟩ | ⟨-, h⟩
      · exact hname
    exact absurd h.symm hm
  · rintro rfl
    cases m <;> decide +kernel

/-- The name of a method is read as that method. -/
theorem stringToMethod_methodToString {m : Method} (hm : m ≠ .UNKNOWN) :
    Method.stringToMethod m.methodToString = m := (stringToMethod_eq_iff _ m hm).mpr rfl

/-- A method's name is a word. -/
theorem methodToString_word (m : Method) :
    m.methodToString ≠ [] ∧ ∀ c ∈ m.methodToString, isspace c = false := by
  cases m <;> decide +kernel

/-! ### Header maps -/

/-- Lower-casing a header's name. -/
def lowerName (name : Bytes) : Bytes := name.map tolower

/-- Assigning fields to a map one after the other; the later assignment wins. -/
def insertAll (hs : Headers) (fs : List Field) : Headers :=
  fs.foldl (fun hs f => hs.insert f.1 f.2) hs

/-- The same headers with their names in lower case. -/
def LowerCased (hs hs' : Headers) : Prop :=
  ∀ name value, hs'.lookup name = some value ↔
    ∃ original, hs.lookup original = some value ∧ lowerName original = name

/-- Lowering a name twice is lowering it once. -/
theorem lowerName_lowerName (name : Bytes) : lowerName (lowerName name) = lowerName name := by
  simp only [lowerName, List.map_map]
  exact List.map_congr_left fun c _ => tolower_tolower c

/-- Lowering a name adds and takes away no colon. -/
theorem colon_mem_lowerName_iff (name : Bytes) : colon ∈ lowerName name ↔ colon ∈ name := by
  simp only [lowerName, List.mem_map, tolower_eq_colon_iff, exists_eq_right]

/-- Lowering a name adds and takes away no newline. -/
theorem newline_mem_lowerName_iff (name : Bytes) : newline ∈ lowerName name ↔ newline ∈ name := by
  simp only [lowerName, List.mem_map, tolower_eq_newline_iff, exists_eq_right]

/-- Where an element stands in a list that ends with `f`: it is `f`, or it stands before it. -/
theorem concat_eq_append_cons {fs pre post : List Field} {f g : Field}
    (h : fs ++ [f] = pre ++ g :: post) :
    f = g ∨ ∃ post', post = post' ++ [f] ∧ fs = pre ++ g :: post' := by
  rcases List.eq_nil_or_concat post with rfl | ⟨post, last, rfl⟩
  · obtain ⟨_, hf⟩ := List.append_inj' h rfl
    exact .inl (List.singleton_inj.mp hf)
  · rw [List.concat_eq_append, ← List.cons_append, ← List.append_assoc] at h
    obtain ⟨hfs, hf⟩ := List.append_inj' h rfl
    obtain rfl := List.singleton_inj.mp hf
    exact .inr ⟨post, List.concat_eq_append, hfs⟩

/-- **The last assignment wins.** -/
theorem lookup_insertAll {fs : List Field} {name value : Bytes} :
    (insertAll ∅ fs).lookup name = some value ↔
      ∃ pre post, fs = pre ++ ⟨name, value⟩ :: post ∧ ∀ f ∈ post, f.1 ≠ name := by
  -- Induction from the end: the last field decides about its own name.
  induction fs using List.reverseRecOn with
  | nil => simp [insertAll]
  | append_singleton fs f ih =>
    have hstep : insertAll ∅ (fs ++ [f]) = (insertAll ∅ fs).insert f.1 f.2 :=
      List.foldl_concat ..
    rw [hstep]
    by_cases hname : name = f.1
    · subst hname
      rw [Finmap.lookup_insert, Option.some.injEq]
      constructor
      · rintro rfl
        exact ⟨fs, [], rfl, by simp⟩
      · rintro ⟨pre, post, heq, hpost⟩
        rcases concat_eq_append_cons heq with hf | ⟨post', rfl, _⟩
        · rw [hf]
        · exact absurd rfl (hpost f (by simp))
    · rw [Finmap.lookup_insert_of_ne _ hname, ih]
      constructor
      · rintro ⟨pre, post, rfl, hpost⟩
        refine ⟨pre, post ++ [f], by simp, fun g hg => ?_⟩
        rcases List.mem_append.mp hg with h | h
        · exact hpost g h
        · rw [List.mem_singleton.mp h]
          exact fun h => hname h.symm
      · rintro ⟨pre, post, heq, hpost⟩
        rcases concat_eq_append_cons heq with rfl | ⟨post', rfl, hfs⟩
        · exact absurd rfl hname
        · exact ⟨pre, post', hfs, fun g hg => hpost g (List.mem_append_left _ hg)⟩

/-- A name that some field has is in the map, with the value of such a field. -/
theorem lookup_insertAll_of_mem {fs : List Field} {name : Bytes} (h : ∃ f ∈ fs, f.1 = name) :
    ∃ f ∈ fs, f.1 = name ∧ (insertAll ∅ fs).lookup name = some f.2 := by
  -- Induction from the end: the last field with the name decides.
  induction fs using List.reverseRecOn with
  | nil =>
    obtain ⟨f, hf, -⟩ := h
    cases hf
  | append_singleton fs g ih =>
    have hconcat : insertAll ∅ (fs ++ [g]) = (insertAll ∅ fs).insert g.1 g.2 := by
      rw [insertAll, insertAll, List.foldl_append]
      rfl
    by_cases hg : g.1 = name
    · refine ⟨g, by simp, hg, ?_⟩
      rw [hconcat, ← hg, Finmap.lookup_insert]
    · obtain ⟨f, hf, hname⟩ := h
      have hmem : f ∈ fs := by
        rcases List.mem_append.mp hf with hmem | hlast
        · exact hmem
        · exact absurd ((List.mem_singleton.mp hlast) ▸ hname) hg
      obtain ⟨f', hf', hname', hlookup⟩ := ih ⟨f, hmem, hname⟩
      refine ⟨f', List.mem_append_left _ hf', hname', ?_⟩
      rw [hconcat, Finmap.lookup_insert_of_ne _ (Ne.symm hg), hlookup]

/-- A list of the entries has every name once. -/
theorem nodupKeys_of_lists {order : List Field} {hs : Headers} (h : Lists order hs) :
    order.NodupKeys := by
  have hnodup := hs.nodupKeys
  rwa [← h, Multiset.coe_nodupKeys] at hnodup

/-- A list of the entries holds what can be looked up. -/
theorem mem_of_lists {order : List Field} {hs : Headers} (h : Lists order hs) (f : Field) :
    f ∈ order ↔ hs.lookup f.1 = some f.2 := by
  have hnodup := nodupKeys_of_lists h
  obtain rfl : hs = (⟨order, hnodup⟩ : AList _).toFinmap := Finmap.ext h.symm
  rw [Finmap.lookup_toFinmap]
  exact (List.mem_dlookup_iff hnodup).symm

/-- Names that differ after lower-casing: assigning the lower-cased fields in any order gives
    the lower-cased map. -/
theorem lowerCased_insertAll {order : List Field} {hs : Headers} (h : Lists order hs)
    (hdistinct : ∀ n ∈ hs, ∀ n' ∈ hs, lowerName n = lowerName n' → n = n') :
    LowerCased hs (insertAll ∅ (order.map fun f => ⟨lowerName f.1, f.2⟩)) := by
  have hmem : ∀ f ∈ order, f.1 ∈ hs := fun f hf =>
    Finmap.mem_of_lookup_eq_some ((mem_of_lists h f).mp hf)
  intro name value
  rw [lookup_insertAll]
  constructor
  · rintro ⟨pre, post, heq, -⟩
    have hin : (⟨name, value⟩ : Field) ∈ order.map fun f => ⟨lowerName f.1, f.2⟩ := by
      rw [heq]
      exact List.mem_append_right _ (List.mem_cons_self ..)
    obtain ⟨f, hf, hfeq⟩ := List.mem_map.mp hin
    cases hfeq
    exact ⟨f.1, (mem_of_lists h f).mp hf, rfl⟩
  · rintro ⟨original, hlook, rfl⟩
    obtain ⟨pre, post, heq⟩ := List.append_of_mem ((mem_of_lists h ⟨original, value⟩).mpr hlook)
    subst heq
    refine ⟨pre.map _, post.map _, List.map_append, ?_⟩
    intro g hg hname
    obtain ⟨f, hf, rfl⟩ := List.mem_map.mp hg
    -- Another field of the same lower-cased name would be the same field.
    have hfmem : f ∈ pre ++ ⟨original, value⟩ :: post :=
      List.mem_append_right _ (List.mem_cons_of_mem _ hf)
    have hsame : f.1 = original :=
      hdistinct _ (hmem f hfmem) _ (hmem ⟨original, value⟩ (by simp)) hname
    have hnodup := (List.nodupKeys_cons.mp (List.nodupKeys_middle.mp (nodupKeys_of_lists h))).1
    have hkey : f.1 ∈ (pre ++ post).keys := List.mem_map_of_mem (List.mem_append_right _ hf)
    rw [hsame] at hkey
    exact hnodup hkey

end Evaluation
