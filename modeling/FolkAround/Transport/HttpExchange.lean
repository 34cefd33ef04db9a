import FolkAround.Lib.HttpMessage
import FolkAround.Transport.HttpSegmentation

/-!
# Requests and answers as messages

What a client meant by a request is what the server makes of it, and the answer is one that
the client can take apart again.

* `HttpRequest` — a request in its parts, fit to be written.
* `HttpRequest.understood` — what becomes of it, in terms of its parts.
* `request_understood` — the same becomes of its bytes, however they arrive.
* `HttpResponse.write` — the bytes of an answer.
* `readAnswer` — what a client makes of those bytes.
* `answer_framed` — whatever is answered is read back.
-/

namespace FolkAround
namespace Transport

open HttpMessage (Field Head OneLine)

/-! ## Requests -/

/-- The field has this name, in any case. -/
def named (name : List Char) (f : Field) : Bool := Text.eqIgnoreAsciiCase f.name name

/-- A request: three words, the fields, the body, and whatever the client sends after it.  The
method is a token, and no target begins with a colon.  A field with a length gives that of the
body, and there is one if there is a body. -/
structure HttpRequest where
  method : List Char
  target : List Char
  version : List Char
  fields : List Field
  body : Bytes
  rest : Bytes
  words : ∀ w ∈ [method, target, version], Text.IsPiece w
  method_token : ':' ∉ method
  target_start : target.head? ≠ some ':'
  lengths : ∀ f ∈ fields, named contentLengthName f → Text.IsNumeral f.value body.length
  announced : body ≠ [] → ∃ f ∈ fields, named contentLengthName f
  addressable : body.length < 2 ^ 64

namespace HttpRequest

def start (r : HttpRequest) : List Char := List.intercalate [' '] [r.method, r.target, r.version]

theorem start_eq (r : HttpRequest) :
    r.start = r.method ++ ' ' :: (r.target ++ ' ' :: r.version) := by
  simp [start, List.intercalate]

theorem mem_start {r : HttpRequest} {c : Char} (hc : c ∈ r.start) :
    c = ' ' ∨ ∃ w ∈ [r.method, r.target, r.version], c ∈ w := by
  rw [start_eq] at hc
  simp only [List.mem_append, List.mem_cons] at hc
  rcases hc with h | h | h | h | h
  · exact .inr ⟨_, by simp, h⟩
  · exact .inl h
  · exact .inr ⟨r.target, by simp, h⟩
  · exact .inl h
  · exact .inr ⟨r.version, by simp, h⟩

theorem start_plain (r : HttpRequest) {c : Char} (hc : c ∈ r.start) (hne : c ≠ ' ') :
    Text.isWhitespace c = false := by
  rcases mem_start hc with h | ⟨w, hw, h⟩
  · exact absurd h hne
  · exact (r.words w hw).plain c h

def head (r : HttpRequest) : Head where
  start := r.start
  fields := r.fields
  start_ne := by
    rw [start_eq]
    simp
  start_line := by
    refine ⟨fun h => ?_, fun h => ?_⟩
    · exact absurd (r.start_plain h (by decide)) (by decide)
    · exact absurd (r.start_plain h (by decide)) (by decide)

/-- All that the client sends. -/
def bytes (r : HttpRequest) : Bytes := r.head.written (r.body ++ r.rest)

/-- The values of the fields of a name. -/
def valuesOf (r : HttpRequest) (name : List Char) : List (List Char) :=
  (r.fields.filter (named name)).map Field.value

/-- What becomes of a request: none with too long a body, and none from a web page; a stream or
a message for who shows the bearer, and only once; the body of a message goes to the tools. -/
def understood (parse : Bytes → Option Value) (bearer : List Char) (r : HttpRequest) : Outcome :=
  if maxHttpBodyBytes < r.body.length then .response payloadTooLarge
  else if r.valuesOf originName ≠ [] then .response forbidden
  else if ((r.method, r.target) = getSse ∨ (r.method, r.target) = postMessage) ∧
      r.valuesOf authorizationName ≠ [bearerPrefix ++ bearer] then .response unauthorized
  else if r.method = "OPTIONS".toList then .response forbidden
  else if (r.method, r.target) = getHealth then .response healthy
  else if (r.method, r.target) = getSse then .sse
  else if (r.method, r.target) = postMessage then
    if r.body = [] then .response missingBody
    else
      match parse r.body with
      | none => .response invalidJson
      | some msg => .message r.body msg
  else .response notFound

end HttpRequest

/-! ## The lines of a request -/

theorem splitOnce_line (f : Field) : Text.splitOnce ':' f.line = some (f.name, ' ' :: f.value) :=
  Text.splitOnce_append (fun h => (f.name_plain _ h).1 rfl) _

theorem namesHeader_line (name : List Char) (f : Field) :
    namesHeader name f.line = named name f := by
  have htrim : Text.trim f.name = f.name := Text.trim_of_plain fun c hc => (f.name_plain c hc).2
  rw [namesHeader, splitOnce_line]
  simp only [htrim, named]

theorem headerValue_line (f : Field) : headerValue f.line = f.value := by
  rw [headerValue, splitOnce_line]
  show Text.trim (' ' :: f.value) = f.value
  rw [Text.trim_cons_whitespace (by decide), f.value_trimmed]

theorem contentLengthLine_line (f : Field) :
    contentLengthLine f.line =
      if named contentLengthName f then Text.parseUnsigned (2 ^ 64) f.value else none := by
  rw [contentLengthLine, splitOnce_line]
  show (if Text.eqIgnoreAsciiCase f.name contentLengthName = true then
    Text.parseUnsigned (2 ^ 64) (Text.trim (' ' :: f.value)) else none) = _
  rw [Text.trim_cons_whitespace (by decide), f.value_trimmed]
  rfl

/-- What stands before a colon in the first line has a blank in it, which is not at its end. -/
theorem blank_of_splitOnce_start (r : HttpRequest) {name value : List Char}
    (h : Text.splitOnce ':' r.start = some (name, value)) :
    ' ' ∈ name ∧ ' ' ∈ Text.trim name := by
  have hmethod : Text.IsPiece r.method := r.words _ (by simp)
  have htarget : Text.IsPiece r.target := r.words _ (by simp)
  obtain ⟨a, as, ha⟩ := List.exists_cons_of_ne_nil hmethod.ne_nil
  obtain ⟨d, ds, hd⟩ := List.exists_cons_of_ne_nil htarget.ne_nil
  have hcolon : ':' ∉ r.method ++ [' ', d] := by
    have hne : d ≠ ':' := by
      rintro rfl
      exact r.target_start (by rw [hd]; rfl)
    simp [r.method_token, Ne.symm hne]
  have hstart : r.start = (r.method ++ [' ', d]) ++ (ds ++ ' ' :: r.version) := by
    rw [HttpRequest.start_eq, hd]
    simp
  -- the colon comes after the first character of the target
  obtain ⟨l, hl⟩ : r.method ++ [' ', d] <+: name := by
    have hsplit := Text.splitOnce_eq_some h
    rw [hstart] at hsplit
    rcases List.append_eq_append_iff.1 hsplit with ⟨l, hname, -⟩ | ⟨l, hshort, hrest⟩
    · exact ⟨l, hname.symm⟩
    · cases l with
      | nil => exact ⟨[], by rw [hshort, List.append_nil, List.append_nil]⟩
      | cons c l =>
          obtain ⟨rfl, -⟩ := List.cons.inj hrest
          exact absurd (by rw [hshort]; simp) hcolon
  have hname : name = a :: (as ++ ' ' :: d :: l) := by
    rw [← hl, ha]
    simp
  rw [hname]
  refine ⟨by simp, Text.mem_trim_between ?_ ?_ as l⟩
  · exact hmethod.plain a (by rw [ha]; exact List.mem_cons_self)
  · exact htarget.plain d (by rw [hd]; exact List.mem_cons_self)

variable (r : HttpRequest)

theorem headerLines_block : headerLines r.head.block = r.start :: r.fields.map Field.line := by
  rw [headerLines, Head.block, Utf8.fromUtf8Lossy_encode, HttpMessage.lines_text]
  rfl

/-- The first line is no field. -/
theorem namesHeader_start {name : List Char} (hname : ' ' ∉ Text.toAsciiLowercase name) :
    namesHeader name r.start = false := by
  rw [namesHeader]
  cases hsplit : Text.splitOnce ':' r.start with
  | none => rfl
  | some p => exact Text.eqIgnoreAsciiCase_of_blank (blank_of_splitOnce_start r hsplit).2 hname

theorem contentLengthLine_start : contentLengthLine r.start = none := by
  rw [contentLengthLine]
  cases hsplit : Text.splitOnce ':' r.start with
  | none => rfl
  | some p =>
      have hblank := (blank_of_splitOnce_start r hsplit).1
      have hname : Text.eqIgnoreAsciiCase p.1 contentLengthName = false :=
        Text.eqIgnoreAsciiCase_of_blank hblank (by decide)
      simp [hname]

theorem hasHeader_block {name : List Char} (hname : ' ' ∉ Text.toAsciiLowercase name) :
    hasHeader r.head.block name = true ↔ r.valuesOf name ≠ [] := by
  have hstart : namesHeader name r.start = false := namesHeader_start r hname
  rw [hasHeader, headerLines_block, List.any_cons, hstart, Bool.false_or, HttpRequest.valuesOf,
    ne_eq, List.map_eq_nil_iff, List.filter_eq_nil_iff, List.any_map, List.any_eq_true]
  simp [namesHeader_line]

theorem authorized_block (bearer : List Char) :
    authorized r.head.block bearer = true ↔
      r.valuesOf authorizationName = [bearerPrefix ++ bearer] := by
  have hstart : namesHeader authorizationName r.start = false :=
    namesHeader_start r (by decide)
  have hlines : authorizationLines (r.start :: r.fields.map Field.line) =
      (r.fields.filter (named authorizationName)).map Field.line := by
    rw [authorizationLines, List.filter_cons_of_neg (by simp [hstart]), List.filter_map]
    exact congrArg _ (List.filter_congr fun f _ => namesHeader_line authorizationName f)
  rw [authorized_iff, ShowsBearer, headerLines_block, hlines, HttpRequest.valuesOf]
  cases r.fields.filter (named authorizationName) with
  | nil => simp
  | cons f fs =>
      simp only [List.map_cons, List.cons.injEq, List.map_eq_nil_iff]
      constructor
      · rintro ⟨line, ⟨rfl, hfs⟩, hvalue⟩
        exact ⟨(headerValue_line f).symm.trans hvalue, hfs⟩
      · rintro ⟨hvalue, hfs⟩
        exact ⟨f.line, ⟨rfl, hfs⟩, (headerValue_line f).trans hvalue⟩

theorem contentLength_block : contentLength r.head.block = r.body.length := by
  have hline : ∀ f ∈ r.fields, contentLengthLine f.line =
      if named contentLengthName f then some r.body.length else none := by
    intro f hf
    rw [contentLengthLine_line]
    split
    · next hname => exact Text.parseUnsigned_numeral (r.lengths f hf hname) r.addressable
    · rfl
  rw [contentLength, headerLines_block, List.findSome?_cons, contentLengthLine_start]
  simp only
  cases hfind : (r.fields.map Field.line).findSome? contentLengthLine with
  | some n =>
      obtain ⟨line, hmem, hn⟩ := List.exists_of_findSome?_eq_some hfind
      obtain ⟨f, hf, rfl⟩ := List.mem_map.1 hmem
      rw [hline f hf] at hn
      split at hn
      · exact (Option.some.inj hn).symm
      · exact absurd hn (by simp)
  | none =>
      have hbody : r.body = [] := by
        by_contra hne
        obtain ⟨f, hf, hname⟩ := r.announced hne
        have hnone := List.findSome?_eq_none_iff.1 hfind f.line (List.mem_map_of_mem hf)
        rw [hline f hf, if_pos hname] at hnone
        exact absurd hnone (by simp)
      rw [hbody]
      rfl

/-- The first line, as its words. -/
theorem splitWhitespace_start : Text.splitWhitespace (Text.trim r.start) =
    [r.method, r.target, r.version] := by
  have hwords : ∀ w ∈ [r.method, r.target, r.version], Text.IsPiece w := r.words
  have htrim : Text.trim r.start = r.start := by
    obtain ⟨c, cs, hc⟩ := List.exists_cons_of_ne_nil (hwords r.method (by simp)).ne_nil
    obtain ⟨ds, d, hd⟩ := List.eq_nil_or_concat r.version |>.resolve_left
      (hwords r.version (by simp)).ne_nil
    refine Text.trim_eq_self (c := c) (d := d) (m := cs ++ ' ' :: (r.target ++ ' ' :: r.version))
      ?_ ?_ ⟨r.method ++ ' ' :: (r.target ++ ' ' :: ds), ?_⟩ ?_
    · rw [HttpRequest.start_eq, hc]
      rfl
    · exact (hwords r.method (by simp)).plain c (by rw [hc]; exact List.mem_cons_self)
    · rw [HttpRequest.start_eq, hd]
      simp
    · exact (hwords r.version (by simp)).plain d (by rw [hd]; simp)
  rw [htrim, HttpRequest.start, Text.splitWhitespace_intercalate hwords]

theorem written_start (body : Bytes) :
    ∃ more, r.head.written body = Utf8.encode (r.start ++ ['\r']) ++ 10 :: more := by
  have hcr : Utf8.encode ['\r'] = [13] := by decide
  have hcrlf : Utf8.encode ['\r', '\n'] = [13, 10] := by decide
  rw [Head.written, Head.block, Head.text, Head.lines]
  show ∃ more, Utf8.encode (HttpMessage.joinLines (r.start :: r.fields.map Field.line)) ++
    HttpMessage.blankLine ++ body = _
  cases r.fields.map Field.line with
  | nil =>
      refine ⟨13 :: 10 :: body, ?_⟩
      rw [HttpMessage.joinLines, Utf8.encode_append, hcr]
      simp [HttpMessage.blankLine]
  | cons l ls =>
      refine ⟨Utf8.encode (HttpMessage.joinLines (l :: ls)) ++ HttpMessage.blankLine ++ body, ?_⟩
      have hsplit : r.start ++ '\r' :: '\n' :: HttpMessage.joinLines (l :: ls) =
          r.start ++ (['\r', '\n'] ++ HttpMessage.joinLines (l :: ls)) := rfl
      rw [HttpMessage.joinLines, hsplit, Utf8.encode_append, Utf8.encode_append,
        Utf8.encode_append, hcr, hcrlf]
      simp

theorem methodAndPath_bytes : methodAndPath r.bytes = (r.method, r.target) := by
  obtain ⟨more, hmore⟩ := written_start r (r.body ++ r.rest)
  have hcr : '\n' ∉ r.start ++ ['\r'] := by
    intro h
    rcases List.mem_append.1 h with h | h
    · exact r.head.start_line.2 h
    · exact absurd h (by decide)
  have hline : (Text.lines (Utf8.fromUtf8Lossy r.bytes)).head? = some r.start := by
    rw [HttpRequest.bytes, hmore, Utf8.fromUtf8Lossy_ascii_split (by decide),
      Utf8.fromUtf8Lossy_encode]
    show (Text.lines ((r.start ++ ['\r']) ++ '\n' :: Utf8.fromUtf8Lossy more)).head? = _
    rw [Text.lines_cons hcr, List.head?_cons, Text.stripLineEnd_newline, List.getLast?_concat,
      if_pos rfl, List.dropLast_concat]
  rw [methodAndPath, hline]
  simp only [Option.getD_some, splitWhitespace_start]
  rfl

/-! ## The request as it is understood -/

theorem oneEnd_bytes : OneEnd r.bytes r.head.block.length 4 :=
  oneEnd_crlf (HttpMessage.crlf_written r.head _) fun _ hl => HttpMessage.lf_written r.head _ hl

theorem take_block : r.bytes.take r.head.block.length = r.head.block := by
  rw [HttpRequest.bytes, Head.written, List.append_assoc, List.take_left]

theorem postAt_bytes (parse : Bytes → Option Value) (hshort : r.body.length ≤ maxHttpBodyBytes) :
    postAt parse r.bytes r.head.block.length 4 =
      if r.body = [] then .response missingBody
      else
        match parse r.body with
        | none => .response invalidJson
        | some msg => .message r.body msg := by
  have hdrop : r.bytes.drop (r.head.block.length + 4) = r.body ++ r.rest := by
    rw [HttpRequest.bytes, Head.written, List.drop_append_of_le_length (by
      simp [HttpMessage.blankLine]), List.drop_eq_nil_of_le (by simp [HttpMessage.blankLine]),
      List.nil_append]
  have hlength : r.bytes.length = r.head.block.length + 4 + (r.body.length + r.rest.length) := by
    simp only [HttpRequest.bytes, Head.written, HttpMessage.blankLine, List.length_append,
      List.length_cons, List.length_nil]
  rw [postAt, take_block, contentLength_block]
  simp only
  rw [if_neg (Nat.not_lt.2 hshort), hdrop, List.take_left, hlength]
  by_cases hbody : r.body = []
  · rw [if_pos (.inl (by rw [hbody]; rfl)), if_pos hbody]
  · have hpos := List.length_pos_iff.2 hbody
    rw [if_neg (by omega)]
    exact (if_neg hbody).symm

/-- The checks and the dispatch, in terms of the parts. -/
theorem answerAt_bytes (parse : Bytes → Option Value) (bearer : List Char)
    (hshort : r.body.length ≤ maxHttpBodyBytes) :
    answerAt parse bearer r.bytes r.head.block.length 4 = r.understood parse bearer := by
  rw [answerAt, postAt_bytes r parse hshort, take_block, methodAndPath_bytes,
    HttpRequest.understood, if_neg (Nat.not_lt.2 hshort), route]
  by_cases horigin : r.valuesOf originName = []
  · have hno : ¬ hasHeader r.head.block originName = true := by
      rw [hasHeader_block r (by decide)]
      exact not_not.2 horigin
    rw [if_neg hno, if_neg (not_not.2 horigin)]
    by_cases hguard : ((r.method, r.target) = getSse ∨ (r.method, r.target) = postMessage) ∧
        r.valuesOf authorizationName ≠ [bearerPrefix ++ bearer]
    · have hstop : ((r.method, r.target) = getSse ∨ (r.method, r.target) = postMessage) ∧
          ¬ authorized r.head.block bearer = true :=
        ⟨hguard.1, mt (authorized_block r bearer).1 hguard.2⟩
      rw [if_pos hguard, if_pos hstop]
      rfl
    · have hpass : ¬ (((r.method, r.target) = getSse ∨ (r.method, r.target) = postMessage) ∧
          ¬ authorized r.head.block bearer = true) := by
        rw [authorized_block]
        exact hguard
      rw [if_neg hguard, if_neg hpass, dispatch]
      simp only [apply_ite (Route.outcome _)]
      rfl
  · rw [if_pos ((hasHeader_block r (by decide)).2 horigin), if_pos horigin]
    rfl

/-- **A request is understood as it was meant.**  However a request that was written from its
parts arrives, what becomes of it is told by the parts; when it is a message for the tools they
get its body to the byte, and nothing of what comes after it. -/
theorem request_understood (parse : Bytes → Option Value) (bearer : List Char) (r : HttpRequest)
    (hshort : r.head.block.length + 4 ≤ maxHttpHeaderBytes + 1) (reads : Reads r.bytes) :
    handleHttpClient parse bearer reads.chunks = r.understood parse bearer := by
  have hone := oneEnd_bytes r
  have hsearched : Searched r.bytes (readRequest reads.chunks) := by
    rw [← ends_iff_searched]
    exact Chunks.ends_of_read reads.nonempty reads.bounded (Nat.zero_le _) reads.flatten none
  rw [handleHttpClient]
  cases hread : readRequest reads.chunks with
  | rejected answer =>
      rw [hread] at hsearched
      cases hsearched with
      | headTooLong hlong hi hnone =>
          have := hone.lt_of_headerEnd_none hnone
          omega
      | found hnone hj hji hij hi hend hfound =>
          obtain ⟨-, hb⟩ := hone.eq_of_headerEnd hend
          obtain ⟨rfl, rfl⟩ := Prod.mk.inj hb
          cases hfound with
          | headTooLong hhead => omega
          | bodyTooLong _ hbody =>
              rw [take_block, contentLength_block] at hbody
              exact (if_pos hbody).symm
  | complete buffer expected =>
      rw [hread] at hsearched
      cases hsearched with
      | eof _ hnone =>
          have := hone.lt_of_headerEnd_none (i := r.bytes.length) (by rwa [List.take_length])
          exact absurd hone.inside (Nat.not_le.2 this)
      | found hnone hj hji hij hi hend hfound =>
          obtain ⟨hle, hb⟩ := hone.eq_of_headerEnd hend
          obtain ⟨rfl, rfl⟩ := Prod.mk.inj hb
          cases hfound with
          | @complete q _ hbody hq =>
              rw [take_block, contentLength_block] at hbody
              have hend' := hone.headerEnd_awaited hi hle hq
              have hq' := headerEnd_le hend'
              rw [List.length_take] at hq'
              have hwhole : r.head.block.length + 4 +
                  contentLength (r.bytes.take r.head.block.length) ≤ q ∨ r.bytes.length ≤ q := by
                rcases hq with ⟨htotal, rfl⟩ | ⟨-, ⟨htotal, -⟩ | ⟨-, rfl⟩⟩
                · exact .inl htotal
                · exact .inl htotal
                · exact .inr (Nat.le_refl _)
              show respond parse bearer (r.bytes.take q) = _
              rw [respond_eq_answerAt hend', answerAt_take hone.newline hone.len_pos (by omega)
                hwhole, answerAt_bytes r parse bearer hbody]

/-- An empty object for the tools, and a second request behind it. -/
def posted : HttpRequest where
  method := "POST".toList
  target := "/message".toList
  version := "HTTP/1.1".toList
  fields := [⟨"Authorization".toList, "Bearer folk".toList, by decide, ⟨by decide, by decide⟩,
      by decide⟩,
    ⟨"Content-Length".toList, "2".toList, by decide, ⟨by decide, by decide⟩, by decide⟩]
  body := Utf8.encode "{}".toList
  rest := Utf8.encode "GET /sse".toList
  words := by decide
  method_token := by decide
  target_start := by decide
  lengths := by decide
  announced := fun _ => ⟨_, List.mem_cons_of_mem _ List.mem_cons_self, by decide⟩
  addressable := by decide

/-- It is understood byte by byte. -/
theorem request_understood_posted :
    handleHttpClient (fun _ => some (.object [])) "folk".toList
      (Chunks.Arrival.single readSize_pos posted.bytes).chunks =
      .message (Utf8.encode "{}".toList) (.object []) :=
  (request_understood _ _ posted (by decide +kernel) _).trans rfl

/-! ## Answers -/

/-- `send_response` -/
def HttpResponse.write (a : HttpResponse) : Bytes :=
  let body := Utf8.encode a.body.toList
  Utf8.encode ("HTTP/1.1 ".toList ++ Nat.toDigits 10 a.status ++ ' ' :: a.reason.toList ++
    "\r\ncontent-type: ".toList ++ a.contentType.toList ++
    "\r\ncontent-length: ".toList ++ Nat.toDigits 10 body.length ++
    "\r\nconnection: close\r\n\r\n".toList) ++ body

/-- What `send_sse_inner` writes at once. -/
def sseOpening : Bytes :=
  Utf8.encode ("HTTP/1.1 200 OK\r\ncontent-type: text/event-stream\r\n" ++
    "connection: keep-alive\r\n\r\n" ++ "event: endpoint\ndata: /message\n\n").toList

/-- The bytes that are written to the client; `none` when the connection is closed without an
answer. -/
def Outcome.written (handle : Value → Except TransportError (Option String)) (clients : Nat) :
    Outcome → Option Bytes
  | .response answer => some answer.write
  | .sse => some (if maxSseClients ≤ clients then tooManySseClients.write else sseOpening)
  | .message _ msg => (messageAnswer (handle msg)).map HttpResponse.write

/-- The answer to the client, if it is not the event stream. -/
def Outcome.answer (handle : Value → Except TransportError (Option String)) (clients : Nat) :
    Outcome → Option HttpResponse
  | .response answer => some answer
  | .sse => if maxSseClients ≤ clients then some tooManySseClients else none
  | .message _ msg => messageAnswer (handle msg)

def httpVersion : List Char := "HTTP/1.1 ".toList

/-- The number between the version and the reason. -/
def readStatus (line : List Char) : Option Nat :=
  (Text.stripPrefix httpVersion line).bind fun rest =>
    (Text.splitOnce ' ' rest).bind fun p => Text.parseUnsigned (2 ^ 16) p.1

/-- What a client reads from all the bytes of an answer: the status, and the body if it has the
length that was announced. -/
def readAnswer (bytes : Bytes) : Option (Nat × Bytes) :=
  (headerEnd bytes).bind fun e =>
    let block := bytes.take e.1
    let body := bytes.drop (e.1 + e.2)
    (readStatus ((headerLines block).head?.getD [])).bind fun status =>
      if contentLength block = body.length then some (status, body) else none

/-- The text may stand in a head. -/
structure Inline (s : List Char) : Prop where
  line : OneLine s
  trimmed : Text.trim s = s

/-- Answers whose status, reason and type may stand in a head, whatever their body. -/
structure HttpResponse.Plain (a : HttpResponse) : Prop where
  status : a.status < 2 ^ 16
  reason : OneLine a.reason.toList
  no_colon : ':' ∉ a.reason.toList
  contentType : Inline a.contentType.toList

theorem toDigits_isDigit {n : Nat} {c : Char} (hc : c ∈ Nat.toDigits 10 n) : c.isDigit = true :=
  Nat.isDigit_of_mem_toDigits (by decide) (by decide) hc

theorem toDigits_plain {n : Nat} : ∀ c ∈ Nat.toDigits 10 n, Text.isWhitespace c = false :=
  fun _ hc => Text.isWhitespace_of_isDigit (toDigits_isDigit hc)

theorem oneLine_of_plain {s : List Char} (h : ∀ c ∈ s, Text.isWhitespace c = false) : OneLine s :=
  ⟨fun hc => absurd (h _ hc) (by decide), fun hc => absurd (h _ hc) (by decide)⟩

namespace HttpResponse

variable {a : HttpResponse}

def statusLine (a : HttpResponse) : List Char :=
  httpVersion ++ Nat.toDigits 10 a.status ++ ' ' :: a.reason.toList

theorem statusLine_line (h : a.Plain) : OneLine a.statusLine := by
  have hversion : OneLine httpVersion := ⟨by decide, by decide⟩
  have hspace : OneLine (' ' :: a.reason.toList) := by
    refine ⟨?_, ?_⟩
    · simp [h.reason.1]
    · simp [h.reason.2]
  exact (hversion.append (oneLine_of_plain toDigits_plain)).append hspace

def typeField (h : a.Plain) : Field :=
  ⟨"content-type".toList, a.contentType.toList, by decide, h.contentType.line,
    h.contentType.trimmed⟩

def lengthField (a : HttpResponse) : Field :=
  ⟨"content-length".toList, Nat.toDigits 10 (Utf8.encode a.body.toList).length, by decide,
    oneLine_of_plain toDigits_plain, Text.trim_of_plain toDigits_plain⟩

def connectionField : Field :=
  ⟨"connection".toList, "close".toList, by decide, ⟨by decide, by decide⟩, by decide⟩

/-- The head of an answer. -/
def head (h : a.Plain) : Head where
  start := a.statusLine
  fields := [typeField h, lengthField a, connectionField]
  start_ne := List.append_ne_nil_of_right_ne_nil _ (List.cons_ne_nil _ _)
  start_line := statusLine_line h

/-- Four lines with their ends, and three fields among them. -/
theorem joinLines_four (s n₁ v₁ n₂ v₂ n₃ v₃ e : List Char) :
    s ++ '\r' :: '\n' :: (n₁ ++ [':', ' ']) ++ v₁ ++ '\r' :: '\n' :: (n₂ ++ [':', ' ']) ++ v₂ ++
        ('\r' :: '\n' :: (n₃ ++ ':' :: ' ' :: v₃) ++ e) =
      HttpMessage.joinLines [s, n₁ ++ ':' :: ' ' :: v₁, n₂ ++ ':' :: ' ' :: v₂,
        n₃ ++ ':' :: ' ' :: v₃] ++ e := by
  simp only [HttpMessage.joinLines, List.append_assoc, List.cons_append, List.nil_append]

theorem text_head (h : a.Plain) : (head h).text = HttpMessage.joinLines
    [a.statusLine, "content-type".toList ++ ':' :: ' ' :: a.contentType.toList,
      "content-length".toList ++ ':' :: ' ' :: Nat.toDigits 10 (Utf8.encode a.body.toList).length,
      "connection".toList ++ ':' :: ' ' :: "close".toList] := rfl

/-- An answer is written as a head and a body. -/
theorem write_eq (h : a.Plain) : a.write = (head h).written (Utf8.encode a.body.toList) := by
  have hblank : HttpMessage.blankLine = Utf8.encode "\r\n\r\n".toList := by decide
  have htype : "\r\ncontent-type: ".toList =
      '\r' :: '\n' :: ("content-type".toList ++ [':', ' ']) := by decide
  have hlength : "\r\ncontent-length: ".toList =
      '\r' :: '\n' :: ("content-length".toList ++ [':', ' ']) := by decide
  have hclose : "\r\nconnection: close\r\n\r\n".toList =
      '\r' :: '\n' :: ("connection".toList ++ ':' :: ' ' :: "close".toList) ++
        "\r\n\r\n".toList := by decide
  have htext := joinLines_four a.statusLine "content-type".toList a.contentType.toList
    "content-length".toList (Nat.toDigits 10 (Utf8.encode a.body.toList).length)
    "connection".toList "close".toList "\r\n\r\n".toList
  rw [← text_head h, ← htype, ← hlength, ← hclose] at htext
  rw [Head.written, Head.block, hblank, ← Utf8.encode_append, ← htext]
  rfl

/-- An empty line of two bytes does not end the head before the one of four does. -/
theorem headerEnd_write (h : a.Plain) : headerEnd a.write = some ((head h).block.length, 4) := by
  have hfind : findBytes ((head h).written (Utf8.encode a.body.toList)) crlfCrlf =
      some (head h).block.length := HttpMessage.crlf_written (head h) _
  rw [write_eq h, headerEnd, hfind]

theorem headerLines_write (h : a.Plain) : headerLines (head h).block =
    [a.statusLine, (typeField h).line, (lengthField a).line, connectionField.line] := by
  rw [headerLines, Head.block, Utf8.fromUtf8Lossy_encode, HttpMessage.lines_text]
  rfl

theorem readStatus_statusLine (h : a.Plain) : readStatus a.statusLine = some a.status := by
  have hdigits : ' ' ∉ Nat.toDigits 10 a.status := fun hc =>
    absurd (toDigits_isDigit hc) (by decide)
  have hversion : Text.stripPrefix httpVersion a.statusLine =
      some (Nat.toDigits 10 a.status ++ ' ' :: a.reason.toList) := by
    rw [Text.stripPrefix_eq_some_iff, statusLine, List.append_assoc]
  rw [readStatus, hversion, Option.bind_some, Text.splitOnce_append hdigits, Option.bind_some,
    Text.parseUnsigned_toDigits h.status]

theorem contentLengthLine_statusLine (h : a.Plain) : contentLengthLine a.statusLine = none := by
  have hversion : ':' ∉ httpVersion := by decide
  have hdigits : ':' ∉ Nat.toDigits 10 a.status := fun hc =>
    absurd (toDigits_isDigit hc) (by decide)
  have hcolon : ':' ∉ a.statusLine := by
    rw [statusLine, List.mem_append, List.mem_append, List.mem_cons]
    rintro ((hc | hc) | hc | hc)
    · exact hversion hc
    · exact hdigits hc
    · exact absurd hc (by decide)
    · exact h.no_colon hc
  cases hsplit : Text.splitOnce ':' a.statusLine with
  | none => rw [contentLengthLine, hsplit]
  | some p =>
      rw [Text.splitOnce_eq_some hsplit] at hcolon
      exact absurd (by simp) hcolon

theorem contentLength_write (h : a.Plain) (hsmall : (Utf8.encode a.body.toList).length < 2 ^ 64) :
    contentLength (head h).block = (Utf8.encode a.body.toList).length := by
  have htype : named contentLengthName (typeField h) = false :=
    show Text.eqIgnoreAsciiCase "content-type".toList contentLengthName = false by decide
  have hlength : named contentLengthName (lengthField a) = true :=
    show Text.eqIgnoreAsciiCase "content-length".toList contentLengthName = true by decide
  have hvalue : Text.parseUnsigned (2 ^ 64) (lengthField a).value =
      some (Utf8.encode a.body.toList).length := Text.parseUnsigned_toDigits hsmall
  rw [contentLength, headerLines_write, List.findSome?_cons, contentLengthLine_statusLine h]
  simp only [List.findSome?_cons, contentLengthLine_line, htype, hlength, hvalue, if_true,
    Bool.false_eq_true, if_false, Option.getD_some]

/-- An answer is read back. -/
theorem readAnswer_write (h : a.Plain) (hsmall : (Utf8.encode a.body.toList).length < 2 ^ 64) :
    readAnswer a.write = some (a.status, Utf8.encode a.body.toList) := by
  have htake : a.write.take (head h).block.length = (head h).block := by
    rw [write_eq h, Head.written, List.append_assoc, List.take_left]
  have hdrop : a.write.drop ((head h).block.length + 4) = Utf8.encode a.body.toList := by
    have hfour : (head h).block.length + 4 = ((head h).block ++ HttpMessage.blankLine).length := by
      rw [List.length_append]
      rfl
    rw [write_eq h, Head.written, hfour, List.drop_left]
  have hline : (headerLines (head h).block).head?.getD [] = a.statusLine := by
    rw [headerLines_write h]
    rfl
  rw [readAnswer, headerEnd_write h, Option.bind_some]
  simp only [htake, hdrop, hline, readStatus_statusLine h, Option.bind_some]
  rw [if_pos (contentLength_write h hsmall)]

end HttpResponse

/-! ## The answers that are given -/

/-- The answers that do not come from the tools. -/
def ownAnswers : List HttpResponse :=
  [badRequest, missingHeaders, missingBody, invalidJson, unauthorized, forbidden, notFound,
    payloadTooLarge, tooManySseClients, healthy, accepted]

theorem inline_json : Inline "application/json".toList := ⟨⟨by decide, by decide⟩, by decide⟩

theorem inline_text : Inline "text/plain".toList := ⟨⟨by decide, by decide⟩, by decide⟩

theorem jsonOk_plain (out : String) : (jsonOk out).Plain where
  status := show 200 < 2 ^ 16 by decide
  reason := show OneLine "OK".toList from ⟨by decide, by decide⟩
  no_colon := show ':' ∉ "OK".toList by decide
  contentType := inline_json

theorem ownAnswers_plain {a : HttpResponse} (ha : a ∈ ownAnswers) :
    a.Plain ∧ (Utf8.encode a.body.toList).length < 2 ^ 64 := by
  have hall : ∀ a ∈ ownAnswers, a.status < 2 ^ 16 ∧ ('\r' ∉ a.reason.toList ∧
      '\n' ∉ a.reason.toList) ∧ ':' ∉ a.reason.toList ∧ a.contentType = "text/plain" ∧
      (Utf8.encode a.body.toList).length < 2 ^ 64 := by decide
  obtain ⟨hstatus, hreason, hcolon, htype, hsmall⟩ := hall a ha
  exact ⟨⟨hstatus, hreason, hcolon, htype ▸ inline_text⟩, hsmall⟩

/-- An answer of the server's own is one of these. -/
def Outcome.Own (o : Outcome) : Prop := ∀ a, o = .response a → a ∈ ownAnswers

theorem own_response {a : HttpResponse} (ha : a ∈ ownAnswers) : (Outcome.response a).Own := by
  rintro b hb
  cases hb
  exact ha

theorem own_message (body : Bytes) (msg : Value) : (Outcome.message body msg).Own := by
  intro a ha
  cases ha

theorem own_sse : Outcome.sse.Own := by
  intro a ha
  cases ha

theorem postAt_own (parse : Bytes → Option Value) (request : Bytes) (offset len : Nat) :
    (postAt parse request offset len).Own := by
  unfold postAt
  extract_lets bodyStart bodyLen body
  split
  · exact own_response (by decide)
  · split
    · exact own_response (by decide)
    · split
      · exact own_response (by decide)
      · exact own_message _ _

theorem respond_own (parse : Bytes → Option Value) (bearer : List Char) (buffer : Bytes) :
    (respond parse bearer buffer).Own := by
  rw [respond]
  split
  · exact own_response (by decide)
  · next headerOffset len hend =>
      cases route bearer (methodAndPath buffer) (buffer.take headerOffset) with
      | forbidden => exact own_response (by decide)
      | unauthorized => exact own_response (by decide)
      | health => exact own_response (by decide)
      | notFound => exact own_response (by decide)
      | sse => exact own_sse
      | message =>
          rw [Route.outcome, handleHttpPost, hend]
          exact postAt_own parse buffer headerOffset len

/-- Reading is given up with an answer of the server's own. -/
theorem afterRead_rejected {buffer : Bytes} {expected : Option Expected} {a : HttpResponse}
    (h : afterRead buffer expected = .stop (.rejected a)) : a ∈ ownAnswers := by
  have hawait : ∀ e, awaitBody buffer e ≠ .stop (.rejected a) := by
    intro e he
    rw [awaitBody] at he
    split at he <;> cases he
  cases expected with
  | some e => exact absurd h (hawait e)
  | none =>
      rw [afterRead] at h
      split at h
      · split at h
        · cases h
          decide
        · simp only at h
          split at h
          · cases h
            decide
          · exact absurd h (hawait _)
      · split at h
        · cases h
          decide
        · cases h

theorem read_rejected {reads : List Bytes} {buffer : Bytes} {expected : Option Expected}
    {a : HttpResponse} (h : requestReader.read buffer expected reads = .rejected a) :
    a ∈ ownAnswers := by
  induction reads generalizing buffer expected with
  | nil => cases h
  | cons c cs ih =>
      rw [Chunks.Reader.read] at h
      cases hstep : requestReader.chunk (buffer ++ c) expected with
      | more e =>
          rw [hstep] at h
          exact ih h
      | stop r =>
          rw [hstep] at h
          subst h
          exact afterRead_rejected hstep

theorem handleHttpClient_own (parse : Bytes → Option Value) (bearer : List Char)
    (reads : List Bytes) : (handleHttpClient parse bearer reads).Own := by
  rw [handleHttpClient]
  cases hread : readRequest reads with
  | rejected a => exact own_response (read_rejected hread)
  | complete buffer expected => exact respond_own parse bearer buffer

/-- What is written is the answer, or the beginning of the event stream. -/
theorem written_cases {handle : Value → Except TransportError (Option String)} {clients : Nat}
    {o : Outcome} (ho : o.Own) {w : Bytes} (hw : o.written handle clients = some w) :
    (o = .sse ∧ clients < maxSseClients ∧ w = sseOpening) ∨
    ∃ a, o.answer handle clients = some a ∧ w = a.write ∧
      (a ∈ ownAnswers ∨ ∃ msg out, handle msg = .ok (some out) ∧ a = jsonOk out) := by
  cases o with
  | response a => exact .inr ⟨a, rfl, (Option.some.inj hw).symm, .inl (ho a rfl)⟩
  | sse =>
      have hw := (Option.some.inj hw).symm
      by_cases hfull : maxSseClients ≤ clients
      · rw [if_pos hfull] at hw
        exact .inr ⟨tooManySseClients, if_pos hfull, hw, .inl (by decide)⟩
      · rw [if_neg hfull] at hw
        exact .inl ⟨rfl, Nat.not_le.1 hfull, hw⟩
  | message body msg =>
      obtain ⟨a, ha, rfl⟩ := Option.map_eq_some_iff.1 hw
      refine .inr ⟨a, ha, rfl, ?_⟩
      cases hhandle : handle msg with
      | error err =>
          rw [hhandle] at ha
          cases ha
      | ok reply =>
          rw [hhandle] at ha
          cases reply with
          | none => exact .inl (Option.some.inj ha ▸ by decide)
          | some out => exact .inr ⟨msg, out, hhandle, (Option.some.inj ha).symm⟩

/-- **Every answer is framed.**  Whatever a client sends, and however it arrives: what is written
to it is the beginning of the event stream, or it is read back as the status and the body of the
answer, with nothing left over.  Nothing that the tools reply can make it look otherwise. -/
theorem answer_framed (parse : Bytes → Option Value) (bearer : List Char)
    {handle : Value → Except TransportError (Option String)}
    (hsmall : ∀ msg out, handle msg = .ok (some out) → (Utf8.encode out.toList).length < 2 ^ 64)
    (clients : Nat) (reads : List Bytes) {w : Bytes}
    (hw : (handleHttpClient parse bearer reads).written handle clients = some w) :
    (handleHttpClient parse bearer reads = .sse ∧ clients < maxSseClients ∧ w = sseOpening) ∨
    ∃ a, (handleHttpClient parse bearer reads).answer handle clients = some a ∧
      readAnswer w = some (a.status, Utf8.encode a.body.toList) := by
  rcases written_cases (handleHttpClient_own parse bearer reads) hw with
    hsse | ⟨a, ha, rfl, hown | ⟨msg, out, hout, rfl⟩⟩
  · exact .inl hsse
  · obtain ⟨hplain, hbody⟩ := ownAnswers_plain hown
    exact .inr ⟨a, ha, HttpResponse.readAnswer_write hplain hbody⟩
  · exact .inr ⟨jsonOk out, ha, HttpResponse.readAnswer_write (jsonOk_plain out)
      (hsmall msg out hout)⟩

/-- The reply to it, when it comes in one piece. -/
theorem answer_framed_posted :
    readAnswer (jsonOk "{}").write = some (200, Utf8.encode "{}".toList) := by
  have hsmall : ∀ (msg : Value) (out : String),
      (Except.ok (some "{}") : Except TransportError (Option String)) = .ok (some out) →
      (Utf8.encode out.toList).length < 2 ^ 64 := by
    rintro msg out hout
    cases hout
    decide
  have hunderstood : handleHttpClient (fun _ => some (.object [])) "folk".toList [posted.bytes] =
      .message (Utf8.encode "{}".toList) (.object []) := rfl
  rcases answer_framed (fun _ => some (.object [])) "folk".toList hsmall 0 [posted.bytes] rfl with
    ⟨h, -⟩ | ⟨a, ha, hread⟩
  · rw [hunderstood] at h
    cases h
  · rw [hunderstood] at ha
    cases ha
    exact hread

end Transport
end FolkAround
