import FolkAround.Transport.HttpGate
import FolkAround.Transport.HttpReading

/-!
# How a request is cut

The header block of a request is looked for after each read, and once more in all that
was read.  What comes of it is the same for most requests however they are cut, but not
for all: the head may be on the edge of what is allowed, and the header block may end
twice.

* `SegmentationIndependent` — the outcome is the same however a request is cut, and
  the header block awaited is the one that is checked.
* `answerAt` — what becomes of a request with its header block ending somewhere.
* `OneEndSafe`, `TwoEndsSafe` — the conditions for a request with one end, and with two.
* `segmentation_iff` — for which requests the cuts do not matter.
-/

namespace FolkAround
namespace Transport

/-- What is seen of a client: the status of the answer, and the body that was handled. -/
structure Seen where
  status : Option Nat
  handled : Option Bytes
  deriving DecidableEq

section

variable (parse : Bytes → Option Value) (bearer : List Char)
  (handle : Value → Except TransportError (Option String)) (clients : Nat)

def Outcome.seen (outcome : Outcome) : Seen := ⟨outcome.status handle clients, outcome.handled⟩

/-- Any two ways to cut the request come to the same, and the header block that was
awaited is the one found in the end. -/
structure SegmentationIndependent (request : Bytes) : Prop where
  seen_eq : ∀ a b : Reads request,
    (handleHttpClient parse bearer a.chunks).seen handle clients =
      (handleHttpClient parse bearer b.chunks).seen handle clients
  boundary_eq : ∀ (a : Reads request) (buffer : Bytes) (e : Expected),
    readRequest a.chunks = .complete buffer (some e) → headerEnd buffer = some (e.offset, e.len)

end

/-! ## What becomes of a request with its header block ending somewhere -/

section

variable (parse : Bytes → Option Value) (bearer : List Char)

/-- `respond`, with the end of the header block given. -/
def answerAt (request : Bytes) (offset len : Nat) : Outcome :=
  (route bearer (methodAndPath request) (request.take offset)).outcome
    (postAt parse request offset len)

variable {parse bearer}

theorem respond_eq_answerAt {buffer : Bytes} {offset len : Nat}
    (h : headerEnd buffer = some (offset, len)) :
    respond parse bearer buffer = answerAt parse bearer buffer offset len := by
  rw [respond, answerAt, h, handleHttpPost, h]

theorem head?_lines_newline (xs ys : List Char) :
    (Text.lines (xs ++ '\n' :: ys)).head? = (Text.lines (xs ++ ['\n'])).head? := by
  have hne : Text.lines (xs ++ ['\n']) ≠ [] := by
    rw [Text.lines, ne_eq, List.map_eq_nil_iff]
    exact Text.splitInclusive_ne_nil (by simp)
  rw [Text.lines_append_newline, List.head?_append_of_ne_nil _ hne]

/-- The first line is there when its end is. -/
theorem methodAndPath_take {request : Bytes} {j i : Nat} (hj : request[j]? = some 10)
    (hi : j < i) : methodAndPath (request.take i) = methodAndPath request := by
  obtain ⟨hlt, hget⟩ := List.getElem?_eq_some_iff.1 hj
  have hsplit : request = request.take j ++ 10 :: request.drop (j + 1) := by
    rw [← hget, List.getElem_cons_drop, List.take_append_drop]
  have hline : ∀ tail : Bytes,
      (Text.lines (Utf8.fromUtf8Lossy (request.take j ++ 10 :: tail))).head? =
        (Text.lines (Utf8.fromUtf8Lossy (request.take j) ++ ['\n'])).head? := by
    intro tail
    rw [Utf8.fromUtf8Lossy_ascii_split (by decide)]
    exact head?_lines_newline _ _
  have htake : request.take i =
      request.take j ++ 10 :: (request.drop (j + 1)).take (i - (j + 1)) := by
    have hlen : (request.take j).length = j := by
      rw [List.length_take]
      omega
    conv_lhs => rw [hsplit]
    rw [List.take_append, hlen, List.take_of_length_le (by omega),
      show i - j = (i - (j + 1)) + 1 by omega, List.take_succ_cons]
  have hwhole : (Text.lines (Utf8.fromUtf8Lossy request)).head? =
      (Text.lines (Utf8.fromUtf8Lossy (request.take j) ++ ['\n'])).head? := by
    conv_lhs => rw [hsplit]
    exact hline _
  unfold methodAndPath
  rw [htake, hline, hwhole]

/-- A part of the request that holds the body, or all there is of it, answers for it. -/
theorem answerAt_take {request : Bytes} {offset len q : Nat}
    (hnewline : request[offset + len - 1]? = some 10) (hlen : 0 < len) (hq : offset + len ≤ q)
    (hbody : offset + len + contentLength (request.take offset) ≤ q ∨ request.length ≤ q) :
    answerAt parse bearer (request.take q) offset len = answerAt parse bearer request offset len := by
  rcases hbody with hbody | hall
  · have hhead : (request.take q).take offset = request.take offset := by
      rw [List.take_take, Nat.min_eq_left (by omega)]
    have hpost : postAt parse (request.take q) offset len = postAt parse request offset len := by
      unfold postAt
      rw [hhead]
      extract_lets bodyStart bodyLen body body'
      have hshort : (request.take q).length < bodyStart + bodyLen ↔
          request.length < bodyStart + bodyLen := by
        rw [List.length_take]
        omega
      have hbytes : body = body' := by
        show ((request.take q).drop bodyStart).take bodyLen = (request.drop bodyStart).take bodyLen
        rw [List.drop_take, List.take_take, Nat.min_eq_left (by omega)]
      rw [hbytes]
      simp only [hshort]
    rw [answerAt, answerAt, methodAndPath_take hnewline (by omega), hhead, hpost]
  · rw [List.take_of_length_le hall]

end

variable {request : Bytes} {e : Expected} {r : ReadEnd} {i : Nat}

/-! ## What is seen -/

def seenBadRequest : Seen := ⟨some 400, none⟩

def seenTooLarge : Seen := ⟨some 413, none⟩

section

variable (parse : Bytes → Option Value) (bearer : List Char)
  (handle : Value → Except TransportError (Option String)) (clients : Nat)

def ReadEnd.outcome : ReadEnd → Outcome
  | .rejected answer => .response answer
  | .complete buffer _ => respond parse bearer buffer

/-- A message that passes the checks, with no body, not all of it, or one that is not
JSON. -/
structure Unusable (request : Bytes) (offset len : Nat) : Prop where
  passes : route bearer (methodAndPath request) (request.take offset) = .message
  small : contentLength (request.take offset) ≤ maxHttpBodyBytes
  body : contentLength (request.take offset) = 0 ∨
    request.length < offset + len + contentLength (request.take offset) ∨
    parse ((request.drop (offset + len)).take (contentLength (request.take offset))) = none

/-- What is seen when the header block is found to end at `offset`. -/
def foundSeen (request : Bytes) (offset len : Nat) : Seen :=
  if maxHttpHeaderBytes < offset then seenBadRequest
  else if maxHttpBodyBytes < contentLength (request.take offset) then seenTooLarge
  else (answerAt parse bearer request offset len).seen handle clients

variable {parse bearer handle clients}

/-- Independence, told by what the loop may end with. -/
theorem independent_iff :
    SegmentationIndependent parse bearer handle clients request ↔
      (∀ r r', Searched request r → Searched request r' →
        (r.outcome parse bearer).seen handle clients =
          (r'.outcome parse bearer).seen handle clients) ∧
      ∀ buffer e, Searched request (.complete buffer (some e)) →
        headerEnd buffer = some (e.offset, e.len) := by
  have hsearched : ∀ r, Searched request r ↔ ∃ a : Reads request, readRequest a.chunks = r :=
    fun r => ends_iff_searched.symm.trans (Chunks.ends_iff readSize_pos)
  constructor
  · intro h
    refine ⟨fun r r' hr hr' => ?_, fun buffer e hr => ?_⟩
    · obtain ⟨a, rfl⟩ := (hsearched r).1 hr
      obtain ⟨b, rfl⟩ := (hsearched r').1 hr'
      exact h.seen_eq a b
    · obtain ⟨a, ha⟩ := (hsearched _).1 hr
      exact h.boundary_eq a buffer e ha
  · rintro ⟨hseen, hboundary⟩
    refine ⟨fun a b => ?_, fun a buffer e ha => ?_⟩
    · exact hseen _ _ ((hsearched _).2 ⟨a, rfl⟩) ((hsearched _).2 ⟨b, rfl⟩)
    · exact hboundary buffer e ((hsearched _).2 ⟨a, ha⟩)

theorem postAt_seen_badRequest_iff {offset len : Nat} :
    (postAt parse request offset len).seen handle clients = seenBadRequest ↔
      contentLength (request.take offset) ≤ maxHttpBodyBytes ∧
        (contentLength (request.take offset) = 0 ∨
          request.length < offset + len + contentLength (request.take offset) ∨
          parse ((request.drop (offset + len)).take (contentLength (request.take offset))) =
            none) := by
  unfold postAt
  extract_lets bodyStart bodyLen body
  by_cases hbig : maxHttpBodyBytes < bodyLen
  · rw [if_pos hbig]
    exact iff_of_false (by simp [Outcome.seen, Outcome.status, payloadTooLarge, plain, seenBadRequest])
      fun hc => absurd hc.1 (Nat.not_le.2 hbig)
  · rw [if_neg hbig]
    refine Iff.trans ?_ (and_iff_right (Nat.not_lt.1 hbig)).symm
    rw [← or_assoc]
    by_cases hmissing : bodyLen = 0 ∨ request.length < bodyStart + bodyLen
    · rw [if_pos hmissing]
      exact iff_of_true rfl (.inl hmissing)
    · rw [if_neg hmissing, or_iff_right hmissing]
      show _ ↔ parse body = none
      cases parse body with
      | none => exact iff_of_true rfl rfl
      | some msg => simp [Outcome.seen, Outcome.handled, seenBadRequest]

/-- Only a message is answered that it has no usable body, or too large a one. -/
theorem outcome_status_of_ne_message {way : Route} (h : way ≠ .message) (post : Outcome) :
    (way.outcome post).status handle clients ≠ some 400 ∧
      (way.outcome post).status handle clients ≠ some 413 := by
  have hresponse : ∀ answer : HttpResponse, answer.status ≠ 400 ∧ answer.status ≠ 413 →
      (Outcome.response answer).status handle clients ≠ some 400 ∧
        (Outcome.response answer).status handle clients ≠ some 413 :=
    fun _ hne => ⟨fun hc => hne.1 (Option.some.inj hc), fun hc => hne.2 (Option.some.inj hc)⟩
  cases way with
  | forbidden => exact hresponse forbidden (by decide)
  | unauthorized => exact hresponse unauthorized (by decide)
  | health => exact hresponse healthy (by decide)
  | notFound => exact hresponse notFound (by decide)
  | message => exact absurd rfl h
  | sse =>
      show Outcome.sse.status handle clients ≠ some 400 ∧ Outcome.sse.status handle clients ≠ some 413
      rcases sse_status handle clients with h | h <;> rw [h] <;> simp

theorem answerAt_seen_badRequest_iff {offset len : Nat} :
    (answerAt parse bearer request offset len).seen handle clients = seenBadRequest ↔
      Unusable parse bearer request offset len := by
  rw [answerAt]
  by_cases hroute : route bearer (methodAndPath request) (request.take offset) = .message
  · rw [hroute, Route.outcome, postAt_seen_badRequest_iff]
    exact ⟨fun h => ⟨hroute, h.1, h.2⟩, fun h => ⟨h.small, h.body⟩⟩
  · refine iff_of_false (fun hc => ?_) fun hc => hroute hc.passes
    exact (outcome_status_of_ne_message hroute _).1 (congrArg Seen.status hc)

/-- A body that is answered to be too large is too large. -/
theorem answerAt_seen_tooLarge {offset len : Nat}
    (h : (answerAt parse bearer request offset len).seen handle clients = seenTooLarge) :
    maxHttpBodyBytes < contentLength (request.take offset) := by
  rw [answerAt] at h
  by_cases hroute : route bearer (methodAndPath request) (request.take offset) = .message
  · rw [hroute, Route.outcome] at h
    by_contra hsmall
    unfold postAt at h
    extract_lets bodyStart bodyLen body at h
    rw [if_neg hsmall] at h
    by_cases hmissing : bodyLen = 0 ∨ request.length < bodyStart + bodyLen
    · rw [if_pos hmissing] at h
      exact absurd (congrArg Seen.status h) (by simp [Outcome.seen, Outcome.status, seenTooLarge,
        missingBody, plain])
    · rw [if_neg hmissing] at h
      cases hparse : parse body with
      | none =>
          rw [hparse] at h
          exact absurd (congrArg Seen.status h) (by simp [Outcome.seen, Outcome.status, seenTooLarge,
            invalidJson, plain])
      | some msg =>
          rw [hparse] at h
          exact absurd (congrArg Seen.handled h) (by simp [Outcome.seen, Outcome.handled,
            seenTooLarge])
  · exact absurd (congrArg Seen.status h) (outcome_status_of_ne_message hroute _).2

theorem exists_awaited (request : Bytes) (e : Expected) (i : Nat) : ∃ q, Awaited request e i q := by
  by_cases htotal : e.total ≤ i
  · exact ⟨i, .inl ⟨htotal, rfl⟩⟩
  · by_cases hlen : e.total ≤ request.length
    · refine ⟨e.total, .inr ⟨Nat.not_le.1 htotal, .inl ⟨Nat.le_refl _, ?_, hlen⟩⟩⟩
      exact Nat.lt_add_of_pos_right readSize_pos
    · exact ⟨request.length, .inr ⟨Nat.not_le.1 htotal, .inr ⟨Nat.not_le.1 hlen, rfl⟩⟩⟩

theorem le_of_awaited {q : Nat} (h : Awaited request e i q) (hi : i ≤ request.length) : i ≤ q := by
  rcases h with ⟨-, rfl⟩ | ⟨hlt, ⟨hle, -⟩ | ⟨-, rfl⟩⟩
  · exact Nat.le_refl _
  · exact Nat.le_trans (Nat.le_of_lt hlt) hle
  · exact hi

theorem exists_found (request : Bytes) (i offset len : Nat) : ∃ r, Found request i offset len r := by
  by_cases hhead : maxHttpHeaderBytes < offset
  · exact ⟨_, .headTooLong hhead⟩
  · by_cases hbody : maxHttpBodyBytes < contentLength (request.take offset)
    · exact ⟨_, .bodyTooLong (Nat.not_lt.1 hhead) hbody⟩
    · obtain ⟨q, hq⟩ := exists_awaited request (expectedAt request offset len) i
      exact ⟨_, .complete (Nat.not_lt.1 hhead) (Nat.not_lt.1 hbody) hq⟩

/-- What is seen of a header block that is still the same at the end. -/
theorem seen_of_found {offset len : Nat} (h : Found request i offset len r)
    (hnewline : request[offset + len - 1]? = some 10) (hlen : 0 < len)
    (hkept : ∀ q, contentLength (request.take offset) ≤ maxHttpBodyBytes →
      Awaited request (expectedAt request offset len) i q →
        headerEnd (request.take q) = some (offset, len)) :
    (r.outcome parse bearer).seen handle clients =
      foundSeen parse bearer handle clients request offset len := by
  cases h with
  | headTooLong hhead =>
      rw [foundSeen, if_pos hhead]
      rfl
  | bodyTooLong hhead hbody =>
      rw [foundSeen, if_neg (Nat.not_lt.2 hhead), if_pos hbody]
      rfl
  | @complete q hhead hbody hq =>
      have hend := hkept q hbody hq
      have hle : offset + len ≤ q := by
        have := headerEnd_le hend
        rw [List.length_take] at this
        omega
      have hwhole : offset + len + contentLength (request.take offset) ≤ q ∨ request.length ≤ q := by
        rcases hq with ⟨htotal, rfl⟩ | ⟨-, ⟨htotal, -⟩ | ⟨-, rfl⟩⟩
        · exact .inl htotal
        · exact .inl htotal
        · exact .inr (Nat.le_refl _)
      rw [foundSeen, if_neg (Nat.not_lt.2 hhead), if_neg (Nat.not_lt.2 hbody), ReadEnd.outcome,
        respond_eq_answerAt hend, answerAt_take hnewline hlen hle hwhole]

/-! ## One end -/

variable (parse bearer) in
/-- The header block is not on the edge of what is allowed, or the request is answered as
if it were too long. -/
def OneEndSafe (request : Bytes) (offset len : Nat) : Prop :=
  offset + len ≤ maxHttpHeaderBytes + 1 ∨ maxHttpHeaderBytes < offset ∨
    Unusable parse bearer request offset len

namespace OneEnd

variable {offset len : Nat} (h : OneEnd request offset len)
include h

theorem eq_of_headerEnd {b : Nat × Nat} (hb : headerEnd (request.take i) = some b) :
    offset + len ≤ i ∧ b = (offset, len) := by
  rw [h.take_eq] at hb
  by_cases hi : offset + len ≤ i
  · rw [if_pos hi] at hb
    exact ⟨hi, (Option.some.inj hb).symm⟩
  · rw [if_neg hi] at hb
    exact absurd hb (by simp)

theorem lt_of_headerEnd_none (hnone : headerEnd (request.take i) = none) : i < offset + len := by
  rw [h.take_eq] at hnone
  by_contra hi
  rw [if_pos (Nat.not_lt.1 hi)] at hnone
  exact absurd hnone (by simp)

theorem headerEnd_awaited {q : Nat} (hi : i ≤ request.length) (hend : offset + len ≤ i)
    (hq : Awaited request e i q) : headerEnd (request.take q) = some (offset, len) := by
  rw [h.take_eq, if_pos (Nat.le_trans hend (le_of_awaited hq hi))]

theorem len_pos : 0 < len := by
  rcases h.len_cases with rfl | rfl <;> decide

theorem seen_of_found {r : ReadEnd} (hfound : Found request i offset len r)
    (hi : i ≤ request.length) (hend : offset + len ≤ i) :
    (r.outcome parse bearer).seen handle clients =
      foundSeen parse bearer handle clients request offset len :=
  Transport.seen_of_found hfound h.newline h.len_pos fun _ _ hq => h.headerEnd_awaited hi hend hq

/-- When the cuts do not matter, all that is seen is what is seen of the whole. -/
theorem seen_of_searched (hsafe : OneEndSafe parse bearer request offset len)
    (hr : Searched request r) :
    (r.outcome parse bearer).seen handle clients =
      foundSeen parse bearer handle clients request offset len := by
  cases hr with
  | eof hshort hnone =>
      have := h.lt_of_headerEnd_none (i := request.length) (by rwa [List.take_length])
      exact absurd h.inside (Nat.not_le.2 this)
  | headTooLong hlong hi hnone =>
      have hlt := h.lt_of_headerEnd_none hnone
      have hfound : foundSeen parse bearer handle clients request offset len = seenBadRequest := by
        rcases hsafe with hshort | hhead | hunusable
        · exact absurd hshort (by omega)
        · exact if_pos hhead
        · by_cases hhead : maxHttpHeaderBytes < offset
          · exact if_pos hhead
          · rw [foundSeen, if_neg hhead, if_neg (Nat.not_lt.2 hunusable.small)]
            exact answerAt_seen_badRequest_iff.2 hunusable
      rw [hfound]
      rfl
  | found hnone hj hji hij hi hend hfound =>
      obtain ⟨hle, hb⟩ := h.eq_of_headerEnd hend
      obtain ⟨rfl, rfl⟩ := Prod.mk.inj hb
      exact h.seen_of_found hfound hi hle

theorem boundary_of_searched {buffer : Bytes} (hr : Searched request (.complete buffer (some e))) :
    headerEnd buffer = some (e.offset, e.len) := by
  cases hr with
  | found hnone hj hji hij hi hend hfound =>
      obtain ⟨hle, hb⟩ := h.eq_of_headerEnd hend
      obtain ⟨rfl, rfl⟩ := Prod.mk.inj hb
      cases hfound with
      | complete hhead hbody hq => exact h.headerEnd_awaited hi hle hq

theorem independent_iff :
    SegmentationIndependent parse bearer handle clients request ↔
      OneEndSafe parse bearer request offset len := by
  rw [Transport.independent_iff]
  constructor
  · rintro ⟨hseen, -⟩
    by_contra hunsafe
    rw [OneEndSafe, not_or, not_or, Nat.not_le, Nat.not_lt] at hunsafe
    obtain ⟨hlong, hhead, husable⟩ := hunsafe
    have hinside := h.inside
    have hedge : offset + len ≤ maxHttpHeaderBytes + 4 := by
      rcases h.len_cases with hl | hl <;> omega
    -- byte by byte the head is too long; with a last read across its end it is not
    have hnone : ∀ k, k < offset + len → headerEnd (request.take k) = none := fun k hk => by
      rw [h.take_eq, if_neg (Nat.not_le.2 hk)]
    have hrejected : Searched request (.rejected badRequest) :=
      .headTooLong (Nat.lt_succ_self _) (by omega) (hnone _ hlong)
    obtain ⟨r, hr⟩ := exists_found request (offset + len) offset len
    have hfound : Searched request r := by
      refine .found (hnone maxHttpHeaderBytes (by omega)) (Nat.le_refl _) (by omega) ?_ hinside
        (h.take_eq _ |>.trans (if_pos (Nat.le_refl _))) hr
      exact Nat.le_trans hedge (Nat.add_le_add_left (by decide) _)
    have heq := hseen _ _ hfound hrejected
    rw [h.seen_of_found hr hinside (Nat.le_refl _), foundSeen, if_neg (Nat.not_lt.2 hhead)] at heq
    by_cases hbody : maxHttpBodyBytes < contentLength (request.take offset)
    · rw [if_pos hbody] at heq
      exact absurd (congrArg Seen.status heq) (show some 413 ≠ some 400 by decide)
    · rw [if_neg hbody] at heq
      exact husable (answerAt_seen_badRequest_iff.1 heq)
  · intro hsafe
    refine ⟨fun r r' hr hr' => ?_, fun buffer e hr => h.boundary_of_searched hr⟩
    rw [h.seen_of_searched hsafe hr, h.seen_of_searched hsafe hr']

end OneEnd

/-! ## Two ends -/

theorem forbidden_iff {way : Route} {post : Outcome} (hpost : post.Passed handle clients) :
    (way.outcome post).status handle clients = some 403 ↔ way = .forbidden := by
  cases way with
  | forbidden => exact iff_of_true rfl rfl
  | unauthorized => exact iff_of_false (show some 401 ≠ some 403 by decide) (by decide)
  | health => exact iff_of_false (show some 200 ≠ some 403 by decide) (by decide)
  | notFound => exact iff_of_false (show some 404 ≠ some 403 by decide) (by decide)
  | sse => exact iff_of_false sse_passed.2 (by decide)
  | message => exact iff_of_false hpost.2 (by decide)

theorem unauthorized_iff {way : Route} {post : Outcome} (hpost : post.Passed handle clients) :
    (way.outcome post).status handle clients = some 401 ↔ way = .unauthorized := by
  cases way with
  | forbidden => exact iff_of_false (show some 403 ≠ some 401 by decide) (by decide)
  | unauthorized => exact iff_of_true rfl rfl
  | health => exact iff_of_false (show some 200 ≠ some 401 by decide) (by decide)
  | notFound => exact iff_of_false (show some 404 ≠ some 401 by decide) (by decide)
  | sse => exact iff_of_false sse_passed.1 (by decide)
  | message => exact iff_of_false hpost.1 (by decide)

/-- Two header blocks under one method and path send a request the same way when the same
is seen of it. -/
theorem route_eq_of_status {headers headers' : Bytes} {methodPath : List Char × List Char}
    {post post' : Outcome} (hpost : post.Passed handle clients) (hpost' : post'.Passed handle clients)
    (h : ((route bearer methodPath headers).outcome post).status handle clients =
      ((route bearer methodPath headers').outcome post').status handle clients) :
    route bearer methodPath headers = route bearer methodPath headers' := by
  have hthree : ∀ headers : Bytes, route bearer methodPath headers = .forbidden ∨
      route bearer methodPath headers = .unauthorized ∨
      route bearer methodPath headers = dispatch methodPath := by
    intro headers
    unfold route
    split_ifs <;> simp
  have hforbidden : route bearer methodPath headers = .forbidden ↔
      route bearer methodPath headers' = .forbidden := by
    rw [← forbidden_iff hpost, h, forbidden_iff hpost']
  have hunauthorized : route bearer methodPath headers = .unauthorized ↔
      route bearer methodPath headers' = .unauthorized := by
    rw [← unauthorized_iff hpost, h, unauthorized_iff hpost']
  rcases hthree headers with h | h | h
  · rw [h, hforbidden.1 h]
  · rw [h, hunauthorized.1 h]
  · rcases hthree headers' with h' | h' | h'
    · rw [h', hforbidden.2 h']
    · rw [h', hunauthorized.2 h']
    · rw [h, h']

variable (parse bearer) in
/-- The two header blocks, the first of which announces no body, send the request the same
way, and if that is to the tools, with no usable body. -/
def SameWay (request : Bytes) (l c : Nat) : Prop :=
  let way := route bearer (methodAndPath request) (request.take l)
  if maxHttpHeaderBytes < c then way = .message
  else contentLength (request.take c) ≤ maxHttpBodyBytes ∧
    way = route bearer (methodAndPath request) (request.take c) ∧
    (way = .message → Unusable parse bearer request c 4)

variable (parse bearer) in
/-- The second end stays out of sight of a client that stops at the first, or what comes of
it is the same. -/
def TwoEndsSafe (request : Bytes) (l c : Nat) : Prop :=
  let bodyLen := contentLength (request.take l)
  let beyond := l + 2 + bodyLen + readSize ≤ c + 4
  maxHttpHeaderBytes < l ∨
  (l = maxHttpHeaderBytes ∧ (bodyLen = 0 ∨ beyond) ∧ Unusable parse bearer request l 2) ∨
  (l < maxHttpHeaderBytes ∧ (bodyLen = 0 ∨ maxHttpBodyBytes < bodyLen ∨ beyond) ∧
    (l + 2 + readSize ≤ c + 4 ∨
      (maxHttpBodyBytes < bodyLen ∧ c ≤ maxHttpHeaderBytes ∧
        maxHttpBodyBytes < contentLength (request.take c)) ∨
      (bodyLen = 0 ∧ SameWay parse bearer request l c)))

/-- A block that announces no body is answered, by the way it goes, without one. -/
theorem postAt_of_no_body {offset len : Nat} (h : contentLength (request.take offset) = 0) :
    postAt parse request offset len = .response missingBody := by
  unfold postAt
  extract_lets bodyStart bodyLen body
  have hzero : bodyLen = 0 := h
  rw [if_neg (by rw [hzero]; exact Nat.not_lt_zero _), if_pos (.inl hzero)]

/-- What the way of both header blocks has to be. -/
theorem sameWay_iff {l c : Nat} (h : contentLength (request.take l) = 0) :
    (answerAt parse bearer request l 2).seen handle clients =
        foundSeen parse bearer handle clients request c 4 ↔
      SameWay parse bearer request l c := by
  have hmissing : postAt parse request l 2 = .response missingBody := postAt_of_no_body h
  obtain ⟨way, hdef⟩ : ∃ way, route bearer (methodAndPath request) (request.take l) = way :=
    ⟨_, rfl⟩
  have hanswer : answerAt parse bearer request l 2 = way.outcome (.response missingBody) := by
    rw [answerAt, hmissing, hdef]
  rw [SameWay, foundSeen, hdef]
  by_cases hhead : maxHttpHeaderBytes < c
  · rw [if_pos hhead, if_pos hhead, answerAt_seen_badRequest_iff]
    refine ⟨fun hc => hdef.symm.trans hc.passes, fun hc => ⟨hdef.trans hc, ?_, .inl h⟩⟩
    rw [h]
    exact Nat.zero_le _
  · rw [if_neg hhead, if_neg hhead]
    by_cases hbody : maxHttpBodyBytes < contentLength (request.take c)
    · rw [if_pos hbody]
      refine iff_of_false (fun hc => ?_) fun hc => absurd hc.1 (Nat.not_le.2 hbody)
      have := answerAt_seen_tooLarge hc
      rw [h] at this
      exact absurd this (Nat.not_lt_zero _)
    · rw [if_neg hbody]
      refine Iff.trans ?_ (and_iff_right (Nat.not_lt.1 hbody)).symm
      have hpassed : (Outcome.response missingBody).Passed handle clients :=
        ⟨show some 400 ≠ some 401 by decide, show some 400 ≠ some 403 by decide⟩
      constructor
      · intro hc
        have hway : way = route bearer (methodAndPath request) (request.take c) := by
          rw [← hdef]
          apply route_eq_of_status hpassed (postAt_passed parse request c 4)
          rw [← answerAt, hdef, ← hanswer]
          exact congrArg Seen.status hc
        refine ⟨hway, fun hmessage => ?_⟩
        rw [← @answerAt_seen_badRequest_iff _ _ _ handle clients, ← hc, hanswer,
          hmessage]
        rfl
      · rintro ⟨hway, hunusable⟩
        rw [hanswer]
        by_cases hmessage : way = .message
        · rw [answerAt_seen_badRequest_iff.2 (hunusable hmessage), hmessage]
          rfl
        · rw [answerAt, ← hway]
          cases hcase : way with
          | message => exact absurd hcase hmessage
          | forbidden => rfl
          | unauthorized => rfl
          | health => rfl
          | sse => rfl
          | notFound => rfl

theorem seen_of_found_long {offset len : Nat} (h : Found request i offset len r)
    (hlong : maxHttpHeaderBytes < offset) :
    (r.outcome parse bearer).seen handle clients = seenBadRequest := by
  cases h with
  | headTooLong _ => rfl
  | bodyTooLong hhead _ => exact absurd hlong (Nat.not_lt.2 hhead)
  | complete hhead _ _ => exact absurd hlong (Nat.not_lt.2 hhead)

namespace TwoEnds

variable {l c : Nat} (h : TwoEnds request l c)
include h

theorem lt_of_headerEnd_none (hnone : headerEnd (request.take i) = none) : i < l + 2 := by
  rw [h.take_eq] at hnone
  have := h.before
  by_contra hi
  by_cases hc : c + 4 ≤ i
  · rw [if_pos hc] at hnone
    exact absurd hnone (by simp)
  · rw [if_neg hc, if_pos (Nat.not_lt.1 hi)] at hnone
    exact absurd hnone (by simp)

theorem headerEnd_none (hi : i < l + 2) : headerEnd (request.take i) = none := by
  have := h.before
  rw [h.take_eq, if_neg (by omega), if_neg (by omega)]

theorem headerEnd_first (hl : l + 2 ≤ i) (hc : i < c + 4) :
    headerEnd (request.take i) = some (l, 2) := by
  rw [h.take_eq, if_neg (Nat.not_le.2 hc), if_pos hl]

theorem headerEnd_second (hc : c + 4 ≤ i) : headerEnd (request.take i) = some (c, 4) := by
  rw [h.take_eq, if_pos hc]

theorem cases_of_headerEnd {offset len : Nat}
    (hend : headerEnd (request.take i) = some (offset, len)) :
    l + 2 ≤ i ∧ i < c + 4 ∧ offset = l ∧ len = 2 ∨ c + 4 ≤ i ∧ offset = c ∧ len = 4 := by
  rw [h.take_eq] at hend
  by_cases hc : c + 4 ≤ i
  · rw [if_pos hc] at hend
    obtain ⟨rfl, rfl⟩ := Prod.mk.inj (Option.some.inj hend)
    exact .inr ⟨hc, rfl, rfl⟩
  · rw [if_neg hc] at hend
    by_cases hl : l + 2 ≤ i
    · rw [if_pos hl] at hend
      obtain ⟨rfl, rfl⟩ := Prod.mk.inj (Option.some.inj hend)
      exact .inl ⟨hl, Nat.not_le.1 hc, rfl, rfl⟩
    · rw [if_neg hl] at hend
      exact absurd hend (by simp)

/-- Reading that awaits a body after the first end stops before the second. -/
theorem lt_of_awaited
    (hbeyond : contentLength (request.take l) = 0 ∨ maxHttpBodyBytes < contentLength (request.take l) ∨
      l + 2 + contentLength (request.take l) + readSize ≤ c + 4)
    (hl : l + 2 ≤ i) (hc : i < c + 4) {q : Nat}
    (hbody : contentLength (request.take l) ≤ maxHttpBodyBytes)
    (hq : Awaited request (expectedAt request l 2) i q) :
    headerEnd (request.take q) = some (l, 2) := by
  have htotal : (expectedAt request l 2).total = l + 2 + contentLength (request.take l) := rfl
  have hinside := h.inside
  unfold Awaited at hq
  rw [htotal] at hq
  exact h.headerEnd_first (by omega) (by omega)

theorem seen_of_first {r : ReadEnd} (hfound : Found request i l 2 r)
    (hbeyond : contentLength (request.take l) = 0 ∨ maxHttpBodyBytes < contentLength (request.take l) ∨
      l + 2 + contentLength (request.take l) + readSize ≤ c + 4)
    (hl : l + 2 ≤ i) (hc : i < c + 4) :
    (r.outcome parse bearer).seen handle clients =
      foundSeen parse bearer handle clients request l 2 :=
  seen_of_found hfound h.newline_first (by decide) fun _ hbody hq =>
    h.lt_of_awaited hbeyond hl hc hbody hq

theorem seen_of_second {r : ReadEnd} (hfound : Found request i c 4 r) (hi : i ≤ request.length)
    (hc : c + 4 ≤ i) :
    (r.outcome parse bearer).seen handle clients =
      foundSeen parse bearer handle clients request c 4 :=
  seen_of_found hfound h.newline_second (by decide) fun _ _ hq =>
    h.headerEnd_second (Nat.le_trans hc (le_of_awaited hq hi))

/-- The header block that is awaited is the one found in the end only if no read that
reaches the body reaches the second end. -/
theorem beyond_of_boundary (hhead : l ≤ maxHttpHeaderBytes)
    (hreach : ∀ r, Found request (l + 2) l 2 r → Searched request r)
    (hboundary : ∀ buffer e, Searched request (.complete buffer (some e)) →
      headerEnd buffer = some (e.offset, e.len)) :
    contentLength (request.take l) = 0 ∨ maxHttpBodyBytes < contentLength (request.take l) ∨
      l + 2 + contentLength (request.take l) + readSize ≤ c + 4 := by
  by_contra hnot
  rw [not_or, not_or, Nat.not_lt, Nat.not_le] at hnot
  obtain ⟨hzero, hbody, hnear⟩ := hnot
  have htotal : (expectedAt request l 2).total = l + 2 + contentLength (request.take l) := rfl
  have hinside := h.inside
  have hq : ∃ q, c + 4 ≤ q ∧ Awaited request (expectedAt request l 2) (l + 2) q := by
    unfold Awaited
    rw [htotal]
    by_cases hlen : l + 2 + contentLength (request.take l) ≤ request.length
    · refine ⟨max (l + 2 + contentLength (request.take l)) (c + 4), by omega,
        .inr ⟨by omega, .inl ?_⟩⟩
      have := readSize_pos
      omega
    · exact ⟨request.length, by omega, .inr ⟨by omega, .inr ⟨by omega, rfl⟩⟩⟩
  obtain ⟨q, hcq, hq⟩ := hq
  have hend := hboundary _ _ (hreach _ (.complete hhead hbody hq))
  rw [h.headerEnd_second hcq] at hend
  exact absurd (Prod.mk.inj (Option.some.inj hend)).2 (show 4 ≠ 2 by decide)

theorem seen_of_searched (hsafe : TwoEndsSafe parse bearer request l c)
    (hr : Searched request r) :
    (r.outcome parse bearer).seen handle clients =
      foundSeen parse bearer handle clients request l 2 := by
  have hbefore := h.before
  -- a block that is too long, or refused as one, is seen as such
  have hlong : maxHttpHeaderBytes ≤ l →
      foundSeen parse bearer handle clients request l 2 = seenBadRequest := by
    intro hl
    rcases hsafe with hhead | ⟨hedge, -, hunusable⟩ | ⟨hshort, -⟩
    · exact if_pos hhead
    · rw [foundSeen, if_neg (by omega), if_neg (Nat.not_lt.2 hunusable.small)]
      exact answerAt_seen_badRequest_iff.2 hunusable
    · exact absurd hl (Nat.not_le.2 hshort)
  cases hr with
  | eof _ hnone =>
      have := h.lt_of_headerEnd_none (i := request.length) (by rwa [List.take_length])
      have := h.inside
      omega
  | headTooLong hi _ hnone =>
      have := h.lt_of_headerEnd_none hnone
      rw [hlong (by omega)]
      rfl
  | @found j i offset len r hnone hj hji hij hi hend hfound =>
      have hjl := h.lt_of_headerEnd_none hnone
      rcases h.cases_of_headerEnd hend with ⟨hl, hc, rfl, rfl⟩ | ⟨hc, rfl, rfl⟩
      · rcases hsafe with hhead | ⟨-, hbeyond, -⟩ | ⟨-, hbeyond, -⟩
        · rw [seen_of_found_long hfound hhead, hlong (by omega)]
        · exact h.seen_of_first hfound (by omega) hl hc
        · exact h.seen_of_first hfound hbeyond hl hc
      · rcases hsafe with hhead | ⟨hedge, -⟩ | ⟨hshort, -, hsecond⟩
        · rw [seen_of_found_long hfound (by omega), hlong (by omega)]
        · rw [seen_of_found_long hfound (by omega), hlong (by omega)]
        · rw [h.seen_of_second hfound hi hc]
          rcases hsecond with hfar | ⟨hbody, hhead, hbody'⟩ | ⟨hzero, hway⟩
          · omega
          · rw [foundSeen, foundSeen, if_neg (Nat.not_lt.2 hhead), if_pos hbody',
              if_neg (by omega), if_pos hbody]
          · rw [← (sameWay_iff hzero).2 hway, foundSeen, if_neg (by omega),
              if_neg (by rw [hzero]; exact Nat.not_lt_zero _)]

theorem boundary_of_searched (hsafe : TwoEndsSafe parse bearer request l c) {buffer : Bytes}
    (hr : Searched request (.complete buffer (some e))) :
    headerEnd buffer = some (e.offset, e.len) := by
  cases hr with
  | @found j i offset len r hnone hj hji hij hi hend hfound =>
      cases hfound with
      | @complete q hhead hbody hq =>
          rcases h.cases_of_headerEnd hend with ⟨hl, hc, rfl, rfl⟩ | ⟨hc, rfl, rfl⟩
          · rcases hsafe with hlong | ⟨-, hbeyond, -⟩ | ⟨-, hbeyond, -⟩
            · exact absurd hlong (Nat.not_lt.2 hhead)
            · exact h.lt_of_awaited (by omega) hl hc hbody hq
            · exact h.lt_of_awaited hbeyond hl hc hbody hq
          · exact h.headerEnd_second (Nat.le_trans hc (le_of_awaited hq hi))

/-- A last read across the first end, before which the request is not too long. -/
theorem searched_first {j : Nat} (hj : j ≤ maxHttpHeaderBytes) (hjl : j < l + 2)
    (hnear : l + 2 ≤ j + readSize) {r : ReadEnd} (hr : Found request (l + 2) l 2 r) :
    Searched request r := by
  have hbefore := h.before
  have hinside := h.inside
  exact .found (h.headerEnd_none hjl) hj hjl hnear (by omega)
    (h.headerEnd_first (Nat.le_refl _) (by omega)) hr

theorem safe_of_edge (hedge : l = maxHttpHeaderBytes)
    (hseen : ∀ r r', Searched request r → Searched request r' →
      (r.outcome parse bearer).seen handle clients = (r'.outcome parse bearer).seen handle clients)
    (hboundary : ∀ buffer e, Searched request (.complete buffer (some e)) →
      headerEnd buffer = some (e.offset, e.len)) :
    (contentLength (request.take l) = 0 ∨
      l + 2 + contentLength (request.take l) + readSize ≤ c + 4) ∧
      Unusable parse bearer request l 2 := by
  have hbefore := h.before
  have hinside := h.inside
  -- byte by byte the head is too long; with a last read across its end it is not
  have hrejected : Searched request (.rejected badRequest) :=
    .headTooLong (i := maxHttpHeaderBytes + 1) (Nat.lt_succ_self _) (by omega)
      (h.headerEnd_none (by omega))
  have hreach : ∀ r, Found request (l + 2) l 2 r → Searched request r := fun r hr =>
    h.searched_first (j := maxHttpHeaderBytes) (Nat.le_refl _) (by omega)
      (by rw [hedge]; exact Nat.add_le_add_left (by decide) _) hr
  have hbeyond := h.beyond_of_boundary (by omega) hreach hboundary
  obtain ⟨r, hr⟩ := exists_found request (l + 2) l 2
  have heq := hseen _ _ (hreach r hr) hrejected
  rw [h.seen_of_first hr hbeyond (Nat.le_refl _) (by omega), foundSeen, if_neg (by omega)] at heq
  by_cases hbody : maxHttpBodyBytes < contentLength (request.take l)
  · rw [if_pos hbody] at heq
    exact absurd (congrArg Seen.status heq) (show some 413 ≠ some 400 by decide)
  · rw [if_neg hbody] at heq
    exact ⟨by omega, answerAt_seen_badRequest_iff.1 heq⟩

theorem safe_of_short (hshort : l < maxHttpHeaderBytes)
    (hseen : ∀ r r', Searched request r → Searched request r' →
      (r.outcome parse bearer).seen handle clients = (r'.outcome parse bearer).seen handle clients)
    (hboundary : ∀ buffer e, Searched request (.complete buffer (some e)) →
      headerEnd buffer = some (e.offset, e.len)) :
    (contentLength (request.take l) = 0 ∨ maxHttpBodyBytes < contentLength (request.take l) ∨
      l + 2 + contentLength (request.take l) + readSize ≤ c + 4) ∧
    (l + 2 + readSize ≤ c + 4 ∨
      (maxHttpBodyBytes < contentLength (request.take l) ∧ c ≤ maxHttpHeaderBytes ∧
        maxHttpBodyBytes < contentLength (request.take c)) ∨
      (contentLength (request.take l) = 0 ∧ SameWay parse bearer request l c)) := by
  have hbefore := h.before
  have hinside := h.inside
  have hreach : ∀ r, Found request (l + 2) l 2 r → Searched request r := fun r hr =>
    h.searched_first (j := l + 1) hshort (by omega) (by have := readSize_pos; omega) hr
  have hbeyond := h.beyond_of_boundary (by omega) hreach hboundary
  refine ⟨hbeyond, ?_⟩
  by_cases hfar : l + 2 + readSize ≤ c + 4
  · exact .inl hfar
  · right
    -- the second end is near enough to be seen together with the first
    obtain ⟨r, hr⟩ := exists_found request (l + 2) l 2
    obtain ⟨r', hr'⟩ := exists_found request (c + 4) c 4
    have hsecond : Searched request r' :=
      .found (h.headerEnd_none (i := l + 1) (by omega)) hshort (by omega) (by omega) hinside
        (h.headerEnd_second (Nat.le_refl _)) hr'
    have heq := hseen _ _ (hreach r hr) hsecond
    rw [h.seen_of_first hr hbeyond (Nat.le_refl _) (by omega),
      h.seen_of_second hr' hinside (Nat.le_refl _), foundSeen, if_neg (by omega)] at heq
    by_cases hbody : maxHttpBodyBytes < contentLength (request.take l)
    · left
      rw [if_pos hbody, foundSeen] at heq
      by_cases hhead : maxHttpHeaderBytes < c
      · rw [if_pos hhead] at heq
        exact absurd (congrArg Seen.status heq) (show some 413 ≠ some 400 by decide)
      · rw [if_neg hhead] at heq
        refine ⟨hbody, Nat.not_lt.1 hhead, ?_⟩
        by_contra hbody'
        rw [if_neg hbody'] at heq
        exact hbody' (answerAt_seen_tooLarge heq.symm)
    · right
      rw [if_neg hbody] at heq
      have hzero : contentLength (request.take l) = 0 := by omega
      exact ⟨hzero, (sameWay_iff hzero).1 heq⟩

theorem independent_iff :
    SegmentationIndependent parse bearer handle clients request ↔
      TwoEndsSafe parse bearer request l c := by
  rw [Transport.independent_iff]
  constructor
  · rintro ⟨hseen, hboundary⟩
    rcases Nat.lt_trichotomy maxHttpHeaderBytes l with hlong | hedge | hshort
    · exact .inl hlong
    · exact .inr (.inl ⟨hedge.symm, h.safe_of_edge hedge.symm hseen hboundary⟩)
    · exact .inr (.inr ⟨hshort, h.safe_of_short hshort hseen hboundary⟩)
  · intro hsafe
    refine ⟨fun r r' hr hr' => ?_, fun buffer e hr => h.boundary_of_searched hsafe hr⟩
    rw [h.seen_of_searched hsafe hr, h.seen_of_searched hsafe hr']

end TwoEnds

/-! ## All requests -/

theorem independent_of_no_end (hl : findBytes request lfLf = none)
    (hc : findBytes request crlfCrlf = none) :
    SegmentationIndependent parse bearer handle clients request := by
  have hnone := headerEnd_take_of_none hl hc
  have hsearched : ∀ r, Searched request r →
      (r.outcome parse bearer).seen handle clients = seenBadRequest ∧
        ∀ buffer e, r ≠ .complete buffer (some e) := by
    intro r hr
    cases hr with
    | eof hshort hend =>
        refine ⟨?_, fun _ _ => by simp⟩
        rw [ReadEnd.outcome, respond, hend]
        rfl
    | headTooLong _ _ _ => exact ⟨rfl, fun _ _ => by simp⟩
    | @found j i offset len r _ _ _ _ _ hend _ => exact absurd (hnone i) (by rw [hend]; simp)
  rw [independent_iff]
  refine ⟨fun r r' hr hr' => ?_, fun buffer e hr => absurd rfl ((hsearched _ hr).2 buffer e)⟩
  rw [(hsearched r hr).1, (hsearched r' hr').1]

variable (parse bearer) in
/-- For which requests the cuts do not matter, by where their header block may end. -/
def SegmentationSafe (request : Bytes) : Prop :=
  match findBytes request lfLf, findBytes request crlfCrlf with
  | none, none => True
  | some l, none => OneEndSafe parse bearer request l 2
  | none, some c => OneEndSafe parse bearer request c 4
  | some l, some c =>
    if c + 4 ≤ l + 2 then OneEndSafe parse bearer request c 4
    else TwoEndsSafe parse bearer request l c

end

/-- **For which requests the cuts do not matter.** -/
theorem segmentation_iff (parse : Bytes → Option Value) (bearer : List Char)
    (handle : Value → Except TransportError (Option String)) (clients : Nat) (request : Bytes) :
    SegmentationIndependent parse bearer handle clients request ↔
      SegmentationSafe parse bearer request := by
  unfold SegmentationSafe
  cases hl : findBytes request lfLf with
  | none =>
      cases hc : findBytes request crlfCrlf with
      | none => exact iff_of_true (independent_of_no_end hl hc) trivial
      | some c =>
          have hone : OneEnd request c 4 := oneEnd_crlf hc fun l hl' => by
            rw [hl] at hl'
            exact absurd hl' (by simp)
          exact hone.independent_iff
  | some l =>
      cases hc : findBytes request crlfCrlf with
      | none => exact (oneEnd_lf hl hc).independent_iff
      | some c =>
          show _ ↔ if c + 4 ≤ l + 2 then _ else _
          by_cases hlt : c + 4 ≤ l + 2
          · rw [if_pos hlt]
            have hone : OneEnd request c 4 := oneEnd_crlf hc fun l' hl' => by
              rw [hl] at hl'
              exact Option.some.inj hl' ▸ hlt
            exact hone.independent_iff
          · rw [if_neg hlt]
            exact (twoEnds hl hc (Nat.not_le.1 hlt)).independent_iff

/-- A request that ends its header block, and then again. -/
def twiceEnded : Bytes := Utf8.encode "GET /health HTTP/1.1\n\nOrigin: a\r\n\r\n".toList

/-- In one read it has an origin, byte by byte it has none. -/
theorem cut_twice_ended :
    ¬ SegmentationIndependent (fun _ => none) [] (fun _ => .ok none) 0 twiceEnded := by
  intro h
  have hseen := h.seen_eq ⟨[twiceEnded], by decide +kernel, by decide +kernel, by decide +kernel⟩
    (.single readSize_pos twiceEnded)
  exact absurd hseen (by decide +kernel)

end Transport
end FolkAround
