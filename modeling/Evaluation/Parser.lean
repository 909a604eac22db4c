import Evaluation.Http
import Evaluation.SocketStream

namespace Evaluation

open Lib SocketStream

/-!
# `HTTPWorker::parseRequest` and `HTTPWorker::parseResponse`

The two parsers of `HTTPServer.cpp` as programs over a `SocketStream`.  Their header loops and
the taking of the body are the same text in the source and one definition here
(`parseHeaders`, `parseBody`).
-/

/-- `while (isspace(line[i]) != 0) { i++; }`, whose last look is at the terminating NUL. -/
def skipBlanks (line : Bytes) (i : ℕ) : ℕ := i + ((line.drop i).takeWhile isspace).length

/-- A round of the header loop.  It ends on nothing but blanks ahead, on an empty line and on
    a line with no colon; any other line adds a header. -/
def headerRound (headers : Headers) : StreamM (Headers ⊕ Headers) := do
  let more ← hasNext
  if more then do
    let line ← nextLine false
    if line.isEmpty then pure (.inr headers)
    else
      let delimPos := find line colon
      if delimPos = npos then pure (.inr headers)
      else do
        let name ← ofExcept (substr line 0 delimPos)
        let value ← ofExcept (substr line (skipBlanks line (delimPos + 1)) line.length)
        pure (.inl (headers.insert (lowerName name) value))
  else pure (.inr headers)

def parseHeaders : StreamM Headers := Prog.loop headerRound ∅

/-- `if (ss.hasNext()) { body = ss.remaining(); }`. -/
def parseBody : StreamM Bytes := do
  let more ← hasNext
  if more then remaining else pure []

/-- The first line of a request: the method, the resource and the version. -/
def parseRequestLine : StreamM (Option (Method × Bytes × Bytes)) := do
  let word ← nextWord
  let method := Method.stringToMethod word
  let resource ← nextWord
  let version ← nextWord
  let passed ← passedBuffer
  if find passed newline ≠ npos ∨ resource.isEmpty ∨ version.isEmpty then pure none
  else do
    let line ← nextLine false
    if line.any fun c => !isspace c then pure none
    else if method = .UNKNOWN then pure none
    else pure (some (method, resource, version))

def parseRequest : StreamM (Option HTTPRequest) := do
  match ← parseRequestLine with
  | none => pure none
  | some (method, resource, version) =>
    let headers ← parseHeaders
    let body ← parseBody
    pure (some { method, resource, version, headers, body })

/-- The status of a response and the check of its first line. -/
def parseStatus (version : Bytes) (code : UInt32) : StreamM (Option (Bytes × UInt32 × Bytes)) := do
  let status ← nextLine true
  let passed ← passedBuffer
  if find passed newline ≠ sizeSub passed.length 1 ∨ version.isEmpty ∨ code = 0
      ∨ status.isEmpty then pure none
  else pure (some (version, code, status))

/-- The first line of a response: the version, the code and the status.  What `nextWord` or
    `stoul` throws for the code is caught. -/
def parseStatusLine : StreamM (Option (Bytes × UInt32 × Bytes)) := do
  let version ← nextWord
  let word ← Prog.attempt nextWord
  match word.bind stoul with
  | .error _ => pure none
  | .ok n => parseStatus version (UInt32.ofNat n)

def parseResponse : StreamM (Option HTTPResponse) := do
  match ← parseStatusLine with
  | none => pure none
  | some (version, code, status) =>
    let headers ← parseHeaders
    let body ← parseBody
    pure (some { version, code, status, headers, body })

end Evaluation
