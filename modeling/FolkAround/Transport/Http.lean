import FolkAround.Lib.Chunks
import FolkAround.Lib.Search
import FolkAround.Lib.Text
import FolkAround.Transport.P2P

/-!
# The server over HTTP

One client is one request: it is read until the announced length has arrived, then
its header block is checked, and it is answered or handed on.

* `headerEnd`, `contentLength`, `hasHeader`, `authorized` — what is taken from the
  bytes of a request.
* `route` — which way a request goes, by its first line and its header block.
* `respond`, `handleHttpPost` — what becomes of the bytes that were read.
* `requestReader` — the loop that reads them; `handleHttpClient` is the whole.
* `Outcome.status`, `Outcome.handled` — what the client and the tools see of it.
-/

namespace FolkAround
namespace Transport

def maxHttpHeaderBytes : Nat := 64 * 1024

def maxHttpBodyBytes : Nat := 1024 * 1024

def maxSseClients : Nat := 32

/-! ## The bytes of a request -/

def crlfCrlf : Bytes := [13, 10, 13, 10]

def lfLf : Bytes := [10, 10]

def findBytes (haystack needle : Bytes) : Option Nat := Search.find needle haystack

/-- Where the header block ends, and the length of what ends it. -/
def headerEnd (request : Bytes) : Option (Nat × Nat) :=
  match findBytes request crlfCrlf with
  | some offset => some (offset, 4)
  | none => (findBytes request lfLf).map fun offset => (offset, 2)

/-- The lines of a header block. -/
def headerLines (headers : Bytes) : List (List Char) := Text.lines (Utf8.fromUtf8Lossy headers)

def contentLengthName : List Char := "content-length".toList

def originName : List Char := "origin".toList

def authorizationName : List Char := "authorization".toList

/-- The length in one line, if it is a line with a length. -/
def contentLengthLine (line : List Char) : Option Nat :=
  match Text.splitOnce ':' line with
  | none => none
  | some (name, value) =>
    if Text.eqIgnoreAsciiCase name contentLengthName then
      Text.parseUnsigned (2 ^ 64) (Text.trim value)
    else none

def contentLength (headers : Bytes) : Nat :=
  ((headerLines headers).findSome? contentLengthLine).getD 0

/-- The line is a header of this name. -/
def namesHeader (expectedName line : List Char) : Bool :=
  match Text.splitOnce ':' line with
  | none => false
  | some (name, _) => Text.eqIgnoreAsciiCase (Text.trim name) expectedName

def hasHeader (headers : Bytes) (expectedName : List Char) : Bool :=
  (headerLines headers).any (namesHeader expectedName)

/-- The loop over the lines: the value of the authorization header so far, or `none`
when there is a second one. -/
def authorizationValue (value : Option (List Char)) :
    List (List Char) → Option (Option (List Char))
  | [] => some value
  | line :: lines =>
    match Text.splitOnce ':' line with
    | none => authorizationValue value lines
    | some (name, candidate) =>
      if ¬ Text.eqIgnoreAsciiCase (Text.trim name) authorizationName then
        authorizationValue value lines
      else if value.isSome then none
      else authorizationValue (some (Text.trim candidate)) lines

/-- Compare without an early exit: collect the differences of the bytes. -/
def constantTimeEq (left right : Bytes) : Bool :=
  if left.length ≠ right.length then false
  else (left.zip right).foldl (fun difference p => difference ||| (p.1 ^^^ p.2)) 0 == 0

def bearerPrefix : List Char := "Bearer ".toList

def authorized (headers : Bytes) (expected : List Char) : Bool :=
  match authorizationValue none (headerLines headers) with
  | none => false
  | some value =>
    match value.bind (Text.stripPrefix bearerPrefix) with
    | none => false
    | some candidate => constantTimeEq (Utf8.encode candidate) (Utf8.encode expected)

/-! ## Answers -/

structure HttpResponse where
  status : Nat
  reason : String
  contentType : String
  body : String
  deriving DecidableEq

/-- A plain text of the server's own. -/
def plain (status : Nat) (reason body : String) : HttpResponse := ⟨status, reason, "text/plain", body⟩

def badRequest : HttpResponse := plain 400 "Bad Request" "bad request"
def missingHeaders : HttpResponse := plain 400 "Bad Request" "missing headers"
def missingBody : HttpResponse := plain 400 "Bad Request" "missing body"
def invalidJson : HttpResponse := plain 400 "Bad Request" "invalid json"
def unauthorized : HttpResponse := plain 401 "Unauthorized" "unauthorized"
def forbidden : HttpResponse := plain 403 "Forbidden" "forbidden"
def notFound : HttpResponse := plain 404 "Not Found" "not found"
def payloadTooLarge : HttpResponse := plain 413 "Payload Too Large" "payload too large"
def tooManySseClients : HttpResponse := plain 503 "Service Unavailable" "too many sse clients"
def healthy : HttpResponse := plain 200 "OK" "ok"
def accepted : HttpResponse := plain 202 "Accepted" "accepted"
def jsonOk (out : String) : HttpResponse := ⟨200, "OK", "application/json", out⟩

/-- What becomes of a client. -/
inductive Outcome where
  /-- The server answers by itself. -/
  | response (answer : HttpResponse)
  /-- The client gets the event stream, if there is room. -/
  | sse
  /-- The body is handed to `handle_message`. -/
  | message (body : Bytes) (msg : Value)

/-- The body that was handed to `handle_message`. -/
def Outcome.handled : Outcome → Option Bytes
  | .message body _ => some body
  | _ => none

/-- The answer to a message. -/
def messageAnswer : Except TransportError (Option String) → Option HttpResponse
  | .error _ => none
  | .ok (some out) => some (jsonOk out)
  | .ok none => some accepted

/-- The status the client sees, when the handler answers with `handle` and `clients`
event streams are open; `none` when the connection is closed without an answer. -/
def Outcome.status (handle : Value → Except TransportError (Option String)) (clients : Nat) :
    Outcome → Option Nat
  | .response answer => some answer.status
  | .sse => some (if maxSseClients ≤ clients then tooManySseClients.status else 200)
  | .message _ msg => (messageAnswer (handle msg)).map HttpResponse.status

/-! ## Handling what was read -/

/-- The first two words of the first line. -/
def methodAndPath (request : Bytes) : List Char × List Char :=
  let requestLine := Text.trim ((Text.lines (Utf8.fromUtf8Lossy request)).head?.getD [])
  let parts := Text.splitWhitespace requestLine
  (parts[0]?.getD [], parts[1]?.getD [])

/-- The ways a request may go. -/
inductive Route where
  | forbidden
  | unauthorized
  | health
  | sse
  | message
  | notFound
  deriving DecidableEq

def getSse : List Char × List Char := ("GET".toList, "/sse".toList)

def postMessage : List Char × List Char := ("POST".toList, "/message".toList)

def getHealth : List Char × List Char := ("GET".toList, "/health".toList)

/-- The dispatch by method and path. -/
def dispatch (methodPath : List Char × List Char) : Route :=
  if methodPath.1 = "OPTIONS".toList then .forbidden
  else if methodPath = getHealth then .health
  else if methodPath = getSse then .sse
  else if methodPath = postMessage then .message
  else .notFound

/-- The checks of the header block, then the dispatch. -/
def route (bearer : List Char) (methodPath : List Char × List Char) (headers : Bytes) : Route :=
  if hasHeader headers originName then .forbidden
  else if (methodPath = getSse ∨ methodPath = postMessage) ∧ ¬ authorized headers bearer then
    .unauthorized
  else dispatch methodPath

/-- What becomes of a request that goes this way, `post` being what becomes of a message. -/
def Route.outcome (post : Outcome) : Route → Outcome
  | .forbidden => .response Transport.forbidden
  | .unauthorized => .response Transport.unauthorized
  | .health => .response healthy
  | .sse => .sse
  | .message => post
  | .notFound => .response Transport.notFound

/-- The body after the header block that ends at `offset`. -/
def postAt (parse : Bytes → Option Value) (request : Bytes) (offset len : Nat) : Outcome :=
  let bodyStart := offset + len
  let bodyLen := contentLength (request.take offset)
  if maxHttpBodyBytes < bodyLen then .response payloadTooLarge
  else if bodyLen = 0 ∨ request.length < bodyStart + bodyLen then .response missingBody
  else
    let body := (request.drop bodyStart).take bodyLen
    match parse body with
    | none => .response invalidJson
    | some msg => .message body msg

def handleHttpPost (parse : Bytes → Option Value) (request : Bytes) : Outcome :=
  match headerEnd request with
  | none => .response missingHeaders
  | some (offset, len) => postAt parse request offset len

/-- What becomes of the bytes that were read. -/
def respond (parse : Bytes → Option Value) (bearer : List Char) (buffer : Bytes) : Outcome :=
  match headerEnd buffer with
  | none => .response missingHeaders
  | some (headerOffset, _) =>
    (route bearer (methodAndPath buffer) (buffer.take headerOffset)).outcome
      (handleHttpPost parse buffer)

/-! ## Reading -/

/-- The length that is awaited, in the three parts it is the sum of. -/
structure Expected where
  offset : Nat
  len : Nat
  bodyLen : Nat
  deriving DecidableEq

def Expected.total (e : Expected) : Nat := e.offset + e.len + e.bodyLen

/-- How reading ends: with an answer, or with the bytes to handle. -/
inductive ReadEnd where
  | rejected (answer : HttpResponse)
  | complete (buffer : Bytes) (expected : Option Expected)
  deriving DecidableEq

/-- Go on until the awaited length is there. -/
def awaitBody (buffer : Bytes) (e : Expected) : Chunks.Step (Option Expected) ReadEnd :=
  if e.total ≤ buffer.length then .stop (.complete buffer (some e)) else .more (some e)

/-- The body of the loop, after a read of at least one byte. -/
def afterRead (buffer : Bytes) : Option Expected → Chunks.Step (Option Expected) ReadEnd
  | some e => awaitBody buffer e
  | none =>
    match headerEnd buffer with
    | some (offset, len) =>
      if maxHttpHeaderBytes < offset then .stop (.rejected badRequest)
      else
        let bodyLen := contentLength (buffer.take offset)
        if maxHttpBodyBytes < bodyLen then .stop (.rejected payloadTooLarge)
        else awaitBody buffer ⟨offset, len, bodyLen⟩
    | none =>
      if maxHttpHeaderBytes < buffer.length then .stop (.rejected badRequest) else .more none

/-- The loop that reads a request. -/
def requestReader : Chunks.Reader UInt8 (Option Expected) ReadEnd := ⟨afterRead, .complete⟩

def readRequest (reads : List Bytes) : ReadEnd := requestReader.read [] none reads

/-- A client from its first byte to its answer; `reads` is what the reads return. -/
def handleHttpClient (parse : Bytes → Option Value) (bearer : List Char) (reads : List Bytes) :
    Outcome :=
  match readRequest reads with
  | .rejected answer => .response answer
  | .complete buffer _ => respond parse bearer buffer

end Transport
end FolkAround
