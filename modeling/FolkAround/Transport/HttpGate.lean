import FolkAround.Transport.Http

/-!
# Who gets through

The checks between the header block of a request and the tools.

* `constantTimeEq_iff` — the comparison that collects differences is equality.
* `authorized_iff` — exactly one authorization line, with the bearer.
* `route_cases` — the way of a request, check by check.
* `http_gate` — the answer to a request for the event stream or with a message, and
  that nothing else reaches a tool.
-/

namespace FolkAround
namespace Transport

/-! ## Comparing -/

/-- The collected difference is zero when there is none. -/
theorem foldl_difference_eq_zero (pairs : List (UInt8 × UInt8)) (difference : UInt8) :
    pairs.foldl (fun difference p => difference ||| (p.1 ^^^ p.2)) difference = 0 ↔
      difference = 0 ∧ ∀ p ∈ pairs, p.1 = p.2 := by
  induction pairs generalizing difference with
  | nil => simp
  | cons p pairs ih =>
      rw [List.foldl_cons, ih, UInt8.or_eq_zero_iff, UInt8.xor_eq_zero_iff, List.forall_mem_cons,
        and_assoc]

theorem eq_of_zip_eq {left right : Bytes} (hlen : left.length = right.length)
    (h : ∀ p ∈ left.zip right, p.1 = p.2) : left = right := by
  induction left generalizing right with
  | nil => exact (List.length_eq_zero_iff.1 hlen.symm).symm
  | cons a left ih =>
      cases right with
      | nil => exact absurd hlen (Nat.succ_ne_zero _)
      | cons b right =>
          rw [List.zip_cons_cons, List.forall_mem_cons] at h
          obtain ⟨hab, hrest⟩ := h
          rw [show a = b from hab, ih (Nat.succ.inj hlen) hrest]

theorem fst_eq_snd_of_mem_zip_self {p : UInt8 × UInt8} (left : Bytes) (h : p ∈ left.zip left) :
    p.1 = p.2 := by
  induction left with
  | nil => exact absurd h (by simp)
  | cons a left ih =>
      rcases List.mem_cons.1 h with rfl | h
      · rfl
      · exact ih h

/-- The comparison without an early exit decides equality. -/
theorem constantTimeEq_iff {left right : Bytes} :
    constantTimeEq left right = true ↔ left = right := by
  unfold constantTimeEq
  constructor
  · intro h
    by_cases hlen : left.length = right.length
    · rw [if_neg (not_not_intro hlen), beq_iff_eq] at h
      exact eq_of_zip_eq hlen ((foldl_difference_eq_zero _ _).1 h).2
    · rw [if_pos hlen] at h
      exact absurd h (by simp)
  · rintro rfl
    rw [if_neg (not_not_intro rfl), beq_iff_eq, foldl_difference_eq_zero]
    exact ⟨rfl, fun p hp => fst_eq_snd_of_mem_zip_self left hp⟩

/-! ## The authorization line -/

/-- What stands after the colon of a line, trimmed. -/
def headerValue (line : List Char) : List Char :=
  match Text.splitOnce ':' line with
  | none => []
  | some (_, value) => Text.trim value

/-- The authorization lines among some lines. -/
def authorizationLines (lines : List (List Char)) : List (List Char) :=
  lines.filter (namesHeader authorizationName)

/-- One line moves the loop on, unless it is an authorization line. -/
theorem authorizationValue_cons (value : Option (List Char)) (line : List Char)
    (lines : List (List Char)) :
    authorizationValue value (line :: lines) =
      if namesHeader authorizationName line then
        if value.isSome then none else authorizationValue (some (headerValue line)) lines
      else authorizationValue value lines := by
  rw [authorizationValue, namesHeader, headerValue]
  cases Text.splitOnce ':' line with
  | none => rfl
  | some p =>
      by_cases h : Text.eqIgnoreAsciiCase (Text.trim p.1) authorizationName = true
      · simp only [h, not_true, if_false, if_true]
      · simp only [h]
        rfl

/-- After the first authorization line there may be no other. -/
theorem authorizationValue_some (value : List Char) (lines : List (List Char)) :
    authorizationValue (some value) lines =
      if authorizationLines lines = [] then some (some value) else none := by
  induction lines with
  | nil => rfl
  | cons line lines ih =>
      rw [authorizationValue_cons, authorizationLines]
      by_cases h : namesHeader authorizationName line = true
      · rw [if_pos h, List.filter_cons_of_pos h, if_neg (List.cons_ne_nil _ _)]
        rfl
      · rw [if_neg h, ih, List.filter_cons_of_neg h, authorizationLines]

/-- The loop finds the value of the one authorization line. -/
theorem authorizationValue_eq_some_iff {lines : List (List Char)} {value : List Char} :
    authorizationValue none lines = some (some value) ↔
      ∃ line, authorizationLines lines = [line] ∧ headerValue line = value := by
  induction lines with
  | nil => simp [authorizationValue, authorizationLines]
  | cons line lines ih =>
      rw [authorizationValue_cons, authorizationLines]
      by_cases h : namesHeader authorizationName line = true
      · rw [if_pos h, List.filter_cons_of_pos h, ← authorizationLines, Option.isSome_none,
          if_neg Bool.false_ne_true, authorizationValue_some]
        by_cases hrest : authorizationLines lines = []
        · simp [hrest]
        · simp [hrest]
      · rw [if_neg h, ih, List.filter_cons_of_neg h, authorizationLines]

/-- The header block shows the bearer: in the one authorization line there is. -/
def ShowsBearer (headers : Bytes) (bearer : List Char) : Prop :=
  ∃ line, authorizationLines (headerLines headers) = [line] ∧
    headerValue line = bearerPrefix ++ bearer

theorem authorized_iff {headers : Bytes} {bearer : List Char} :
    authorized headers bearer = true ↔ ShowsBearer headers bearer := by
  have hvalue : authorized headers bearer = true ↔
      authorizationValue none (headerLines headers) = some (some (bearerPrefix ++ bearer)) := by
    unfold authorized
    cases authorizationValue none (headerLines headers) with
    | none => simp
    | some value =>
        cases value with
        | none => simp
        | some value =>
            simp only [Option.bind_some, Option.some.injEq]
            cases hstrip : Text.stripPrefix bearerPrefix value with
            | none =>
                constructor
                · exact fun hc => absurd hc (by simp)
                · intro hc
                  rw [Text.stripPrefix_eq_some_iff.2 hc] at hstrip
                  exact absurd hstrip (by simp)
            | some candidate =>
                rw [Text.stripPrefix_eq_some_iff] at hstrip
                rw [constantTimeEq_iff, Utf8.encode_injective.eq_iff, hstrip,
                  List.append_cancel_left_eq]
  rw [hvalue, authorizationValue_eq_some_iff, ShowsBearer]

/-! ## The way of a request -/

/-- Some line of the header block has the name `origin`. -/
def NamesOrigin (headers : Bytes) : Prop := ∃ line ∈ headerLines headers, namesHeader originName line

theorem hasHeader_origin_iff {headers : Bytes} :
    hasHeader headers originName = true ↔ NamesOrigin headers := by
  rw [hasHeader, List.any_eq_true, NamesOrigin]

/-- The requests that need the bearer. -/
def Guarded (methodPath : List Char × List Char) : Prop :=
  methodPath = getSse ∨ methodPath = postMessage

theorem guarded_not_options {methodPath : List Char × List Char} (h : Guarded methodPath) :
    methodPath.1 ≠ "OPTIONS".toList ∧ methodPath ≠ getHealth := by
  rcases h with rfl | rfl
  · exact ⟨by decide, by decide⟩
  · exact ⟨by decide, by decide⟩

theorem getSse_ne_postMessage : getSse ≠ postMessage := by decide

/-- A guarded request goes where its header block lets it. -/
theorem route_cases {bearer : List Char} {methodPath : List Char × List Char} {headers : Bytes}
    (h : Guarded methodPath) :
    NamesOrigin headers ∧ route bearer methodPath headers = .forbidden ∨
    (¬ NamesOrigin headers ∧ ¬ ShowsBearer headers bearer) ∧
      route bearer methodPath headers = .unauthorized ∨
    (¬ NamesOrigin headers ∧ ShowsBearer headers bearer) ∧
      route bearer methodPath headers = if methodPath = getSse then .sse else .message := by
  obtain ⟨hoptions, hhealth⟩ := guarded_not_options h
  rw [← hasHeader_origin_iff, ← authorized_iff, route]
  by_cases horigin : hasHeader headers originName = true
  · exact .inl ⟨horigin, if_pos horigin⟩
  · right
    rw [if_neg horigin]
    by_cases hauth : authorized headers bearer = true
    · right
      rw [if_neg fun hc => hc.2 hauth, dispatch, if_neg hoptions, if_neg hhealth]
      refine ⟨⟨horigin, hauth⟩, ?_⟩
      rcases h with rfl | rfl
      · rfl
      · rw [if_neg getSse_ne_postMessage.symm, if_neg getSse_ne_postMessage.symm, if_pos rfl]
    · exact .inl ⟨⟨horigin, hauth⟩, if_pos ⟨h, hauth⟩⟩

/-- Only a message is handled, and only under its own method and path. -/
theorem route_eq_message {bearer : List Char} {methodPath : List Char × List Char}
    {headers : Bytes} (h : route bearer methodPath headers = .message) :
    methodPath = postMessage := by
  unfold route dispatch at h
  by_contra hne
  simp only [hne, if_false] at h
  split_ifs at h

/-! ## What is answered -/

/-- A message is handled, or refused. -/
theorem postAt_cases (parse : Bytes → Option Value) (request : Bytes) (offset len : Nat) :
    (∃ answer, postAt parse request offset len = .response answer ∧
      (answer.status = 400 ∨ answer.status = 413)) ∨
    ∃ body msg, postAt parse request offset len = .message body msg := by
  unfold postAt
  extract_lets bodyStart bodyLen body
  by_cases hbig : maxHttpBodyBytes < bodyLen
  · exact .inl ⟨_, if_pos hbig, .inr rfl⟩
  · rw [if_neg hbig]
    by_cases hmissing : bodyLen = 0 ∨ request.length < bodyStart + bodyLen
    · exact .inl ⟨_, if_pos hmissing, .inl rfl⟩
    · rw [if_neg hmissing]
      cases parse body with
      | none => exact .inl ⟨_, rfl, .inl rfl⟩
      | some msg => exact .inr ⟨body, msg, rfl⟩

variable {handle : Value → Except TransportError (Option String)} {clients : Nat}

theorem message_status (body : Bytes) (msg : Value) :
    Outcome.status handle clients (.message body msg) = none ∨
    Outcome.status handle clients (.message body msg) = some 200 ∨
    Outcome.status handle clients (.message body msg) = some 202 := by
  rw [Outcome.status]
  rcases handle msg with err | out | out
  · exact .inl rfl
  · exact .inr (.inr rfl)
  · exact .inr (.inl rfl)

theorem sse_status (handle : Value → Except TransportError (Option String)) (clients : Nat) :
    Outcome.sse.status handle clients = some 200 ∨
    Outcome.sse.status handle clients = some 503 := by
  rw [Outcome.status]
  by_cases h : maxSseClients ≤ clients
  · rw [if_pos h]
    exact .inr rfl
  · rw [if_neg h]
    exact .inl rfl

/-- The status is not one that only the checks give. -/
def Outcome.Passed (handle : Value → Except TransportError (Option String)) (clients : Nat)
    (outcome : Outcome) : Prop :=
  outcome.status handle clients ≠ some 401 ∧ outcome.status handle clients ≠ some 403

theorem postAt_passed (parse : Bytes → Option Value) (request : Bytes) (offset len : Nat) :
    (postAt parse request offset len).Passed handle clients := by
  rcases postAt_cases parse request offset len with ⟨answer, h, hstatus⟩ | ⟨body, msg, h⟩
  · rw [h, Outcome.Passed, Outcome.status]
    simp only [ne_eq, Option.some.injEq]
    omega
  · rw [h, Outcome.Passed]
    rcases message_status body msg with h | h | h <;> rw [h] <;> simp

theorem sse_passed : Outcome.sse.Passed handle clients := by
  rw [Outcome.Passed]
  rcases sse_status handle clients with h | h <;> rw [h] <;> simp

theorem handleHttpPost_passed (parse : Bytes → Option Value) (request : Bytes) :
    (handleHttpPost parse request).Passed handle clients := by
  unfold handleHttpPost
  cases headerEnd request with
  | none => exact ⟨by simp [Outcome.status, missingHeaders, plain],
      by simp [Outcome.status, missingHeaders, plain]⟩
  | some b => exact postAt_passed parse request b.1 b.2

/-- **The gate.** Of a request for the event stream or with a message, whose header block
ends at `offset`: it is answered 403 exactly when a line names an origin; otherwise it is
answered 401 exactly when it does not show the bearer; and what remains, and only that,
gets to the event stream or to the message.  No other request hands anything to the
tools. -/
theorem http_gate (parse : Bytes → Option Value) (bearer : List Char) (buffer : Bytes)
    {offset len : Nat} (hend : headerEnd buffer = some (offset, len)) :
    let headers := buffer.take offset
    let outcome := respond parse bearer buffer
    let methodPath := methodAndPath buffer
    (Guarded methodPath →
      (outcome.status handle clients = some 403 ↔ NamesOrigin headers) ∧
      (¬ NamesOrigin headers →
        (outcome.status handle clients = some 401 ↔ ¬ ShowsBearer headers bearer)) ∧
      (route bearer methodPath headers ∈ [.sse, .message] ↔
        ¬ NamesOrigin headers ∧ ShowsBearer headers bearer) ∧
      (¬ NamesOrigin headers → ShowsBearer headers bearer →
        outcome = if methodPath = getSse then .sse else handleHttpPost parse buffer)) ∧
    (methodPath ≠ postMessage → outcome.handled = none) := by
  intro headers outcome methodPath
  have houtcome : outcome =
      (route bearer methodPath headers).outcome (handleHttpPost parse buffer) := by
    show respond parse bearer buffer = _
    rw [respond, hend]
  refine ⟨fun hguarded => ?_, fun hother => ?_⟩
  · rcases @route_cases bearer methodPath headers hguarded with
      ⟨horigin, hroute⟩ | ⟨⟨horigin, hbearer⟩, hroute⟩ | ⟨⟨horigin, hbearer⟩, hroute⟩
    · rw [hroute] at houtcome ⊢
      simp [houtcome, horigin, Route.outcome, Outcome.status, forbidden, plain]
    · rw [hroute] at houtcome ⊢
      simp [houtcome, horigin, hbearer, Route.outcome, Outcome.status, unauthorized, plain]
    · have hpass : outcome =
          if methodPath = getSse then .sse else handleHttpPost parse buffer := by
        rw [houtcome, hroute]
        split_ifs <;> rfl
      have hstatus : outcome.Passed handle clients := by
        rw [hpass]
        split_ifs
        · exact sse_passed
        · exact handleHttpPost_passed parse buffer
      refine ⟨iff_of_false hstatus.2 horigin, fun _ => iff_of_false hstatus.1 ?_, ?_, ?_⟩
      · exact not_not_intro hbearer
      · refine iff_of_true ?_ ⟨horigin, hbearer⟩
        rw [hroute]
        split_ifs <;> simp
      · exact fun _ _ => hpass
  · rw [houtcome]
    cases hroute : route bearer methodPath headers with
    | message => exact absurd (route_eq_message hroute) hother
    | forbidden => rfl
    | unauthorized => rfl
    | health => rfl
    | sse => rfl
    | notFound => rfl

/-- A message with some fields before that of its length. -/
def messageWith (fields : String) : Bytes :=
  Utf8.encode ("POST /message HTTP/1.1\r\n" ++ fields ++ "Content-Length: 2\r\n\r\n{}").toList

def ownBearer : Bytes := messageWith "Authorization: Bearer folk\r\n"

def otherBearer : Bytes := messageWith "Authorization: Bearer kolf\r\n"

/-- A page of another site that has the bearer. -/
def foreignPage : Bytes := messageWith "Authorization: Bearer folk\r\nOrigin: a\r\n"

/-- Of the three, one gets through. -/
theorem http_gate_checks :
    (respond (fun _ => some .null) "folk".toList foreignPage).status (fun _ => .ok none) 0 =
        some 403 ∧
      (respond (fun _ => some .null) "folk".toList otherBearer).status (fun _ => .ok none) 0 =
        some 401 ∧
      (respond (fun _ => some .null) "folk".toList ownBearer).handled =
        some (Utf8.encode "{}".toList) := by
  have hforeign := @http_gate (fun _ => .ok none) 0 (fun _ => some .null) "folk".toList foreignPage
    80 4 (by decide +kernel)
  have hother := @http_gate (fun _ => .ok none) 0 (fun _ => some .null) "folk".toList otherBearer
    69 4 (by decide +kernel)
  have hown := @http_gate (fun _ => .ok none) 0 (fun _ => some .null) "folk".toList ownBearer
    69 4 (by decide +kernel)
  refine ⟨?_, ?_, ?_⟩
  · have horigin : NamesOrigin (foreignPage.take 80) := hasHeader_origin_iff.1 (by decide +kernel)
    exact (hforeign.1 (.inr (by decide +kernel))).1.2 horigin
  · have horigin : ¬ NamesOrigin (otherBearer.take 69) :=
      mt hasHeader_origin_iff.2 (by decide +kernel)
    have hbearer : ¬ ShowsBearer (otherBearer.take 69) "folk".toList :=
      mt authorized_iff.2 (by decide +kernel)
    exact ((hother.1 (.inr (by decide +kernel))).2.1 horigin).2 hbearer
  · have horigin : ¬ NamesOrigin (ownBearer.take 69) :=
      mt hasHeader_origin_iff.2 (by decide +kernel)
    have hbearer : ShowsBearer (ownBearer.take 69) "folk".toList :=
      authorized_iff.1 (by decide +kernel)
    rw [(hown.1 (.inr (by decide +kernel))).2.2.2 horigin hbearer]
    decide +kernel

end Transport
end FolkAround
