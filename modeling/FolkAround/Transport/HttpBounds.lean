import FolkAround.Transport.HttpReading

/-!
# Reading a request is bounded, and does not panic

Sums of lengths could overflow and slices could be out of range: here both are checked,
and a check that fails is a panic.  The stream is one of reads without an end of its own.

* `checkedAdd`, `slice` — the operations that may panic.
* `afterReadChecked`, `respondChecked` — the body of the loop, and what becomes of the
  bytes, with these; `readLoop` — the loop, for so many reads.
* `Waiting` — what is known whenever the loop reads again: in either of its two phases the
  buffer is not longer than that phase allows.
* `http_reading_bounded` — every stream is read to an end, within bounds and without panic.
-/

namespace FolkAround
namespace Transport

/-! ## Operations that may panic -/

inductive Panic where
  /-- A sum of lengths is no `usize`. -/
  | overflow
  /-- A slice is not in range. -/
  | slice
  deriving DecidableEq

/-- A sum of two lengths. -/
def checkedAdd (a b : Nat) : Except Panic Nat :=
  if a + b < 2 ^ 64 then .ok (a + b) else .error .overflow

/-- `&bytes[start..stop]` -/
def slice (bytes : Bytes) (start stop : Nat) : Except Panic Bytes :=
  if start ≤ stop ∧ stop ≤ bytes.length then .ok ((bytes.drop start).take (stop - start))
  else .error .slice

theorem ok_bind {α β : Type} (a : α) (f : α → Except Panic β) : (Except.ok a >>= f) = f a := rfl

theorem checkedAdd_eq {a b : Nat} (h : a + b < 2 ^ 64) : checkedAdd a b = .ok (a + b) := if_pos h

theorem slice_eq {bytes : Bytes} {start stop : Nat} (h : start ≤ stop) (hstop : stop ≤ bytes.length) :
    slice bytes start stop = .ok ((bytes.drop start).take (stop - start)) := if_pos ⟨h, hstop⟩

/-- `&bytes[..stop]` -/
theorem slice_zero {bytes : Bytes} {stop : Nat} (hstop : stop ≤ bytes.length) :
    slice bytes 0 stop = .ok (bytes.take stop) := slice_eq (Nat.zero_le _) hstop

/-! ## The loop -/

/-- The body of the loop, after a read of at least one byte. -/
def afterReadChecked (buffer : Bytes) :
    Option Expected → Except Panic (Chunks.Step (Option Expected) ReadEnd)
  | some e => .ok (awaitBody buffer e)
  | none =>
    match headerEnd buffer with
    | some (offset, len) =>
      if maxHttpHeaderBytes < offset then .ok (.stop (.rejected badRequest))
      else do
        let headers ← slice buffer 0 offset
        let bodyLen := contentLength headers
        if maxHttpBodyBytes < bodyLen then .ok (.stop (.rejected payloadTooLarge))
        else do
          let bodyStart ← checkedAdd offset len
          let _total ← checkedAdd bodyStart bodyLen
          .ok (awaitBody buffer ⟨offset, len, bodyLen⟩)
    | none =>
      .ok (if maxHttpHeaderBytes < buffer.length then .stop (.rejected badRequest) else .more none)

/-- What a read gives: the bytes that have come, none at the end of the stream. -/
abbrev Stream := Nat → Except TransportError Bytes

/-- How the loop ends, with all bytes that have come. -/
inductive LoopEnd where
  | failed (buffer : Bytes) (err : TransportError)
  | ended (buffer : Bytes) (result : ReadEnd)

def LoopEnd.buffer : LoopEnd → Bytes
  | .failed buffer _ => buffer
  | .ended buffer _ => buffer

/-- The loop, from the read `i` on, if it ends within so many reads. -/
def readLoop (stream : Stream) (i : Nat) (buffer : Bytes) (expected : Option Expected) :
    (reads : Nat) → Except Panic (Option LoopEnd)
  | 0 => .ok none
  | reads + 1 =>
    match stream i with
    | .error err => .ok (some (.failed buffer err))
    | .ok chunk =>
      if chunk = [] then .ok (some (.ended buffer (.complete buffer expected)))
      else do
        let step ← afterReadChecked (buffer ++ chunk) expected
        match step with
        | .more expected => readLoop stream (i + 1) (buffer ++ chunk) expected reads
        | .stop result => .ok (some (.ended (buffer ++ chunk) result))

/-! ## Handling what was read -/

/-- The body after the header block that ends at `offset`. -/
def postAtChecked (parse : Bytes → Option Value) (request : Bytes) (offset len : Nat) :
    Except Panic Outcome := do
  let bodyStart ← checkedAdd offset len
  let headers ← slice request 0 offset
  let bodyLen := contentLength headers
  if maxHttpBodyBytes < bodyLen then .ok (.response payloadTooLarge)
  else if bodyLen = 0 then .ok (.response missingBody)
  else do
    let bodyEnd ← checkedAdd bodyStart bodyLen
    if request.length < bodyEnd then .ok (.response missingBody)
    else do
      let body ← slice request bodyStart bodyEnd
      match parse body with
      | none => .ok (.response invalidJson)
      | some msg => .ok (.message body msg)

def handleHttpPostChecked (parse : Bytes → Option Value) (request : Bytes) : Except Panic Outcome :=
  match headerEnd request with
  | none => .ok (.response missingHeaders)
  | some (offset, len) => postAtChecked parse request offset len

/-- What becomes of the bytes that were read: the header block is looked for anew. -/
def respondChecked (parse : Bytes → Option Value) (bearer : List Char) (buffer : Bytes) :
    Except Panic Outcome :=
  match headerEnd buffer with
  | none => .ok (.response missingHeaders)
  | some (headerOffset, _) => do
    let headers ← slice buffer 0 headerOffset
    match route bearer (methodAndPath buffer) headers with
    | .message => handleHttpPostChecked parse buffer
    | other => .ok (other.outcome (.response missingHeaders))

/-- A client from its first byte to its answer. -/
def handleHttpClientChecked (parse : Bytes → Option Value) (bearer : List Char) (stream : Stream)
    (reads : Nat) : Except Panic (Option (Except TransportError Outcome)) := do
  match ← readLoop stream 0 [] none reads with
  | none => .ok none
  | some (.failed _ err) => .ok (some (.error err))
  | some (.ended _ (.rejected answer)) => .ok (some (.ok (.response answer)))
  | some (.ended buffer (.complete ..)) => do
    let outcome ← respondChecked parse bearer buffer
    .ok (some (.ok outcome))

/-! ## Nothing panics -/

theorem headerEnd_len {request : Bytes} {offset len : Nat}
    (h : headerEnd request = some (offset, len)) : len ≤ 4 := by
  unfold headerEnd at h
  cases hcr : findBytes request crlfCrlf with
  | some c =>
      rw [hcr] at h
      obtain ⟨-, rfl⟩ := Prod.mk.inj (Option.some.inj h)
      exact Nat.le_refl 4
  | none =>
      rw [hcr] at h
      obtain ⟨l, -, hl⟩ := Option.map_eq_some_iff.1 h
      obtain ⟨-, rfl⟩ := Prod.mk.inj hl
      decide

/-- The body of the loop checks the lengths before it adds them. -/
theorem afterReadChecked_eq (buffer : Bytes) (expected : Option Expected) :
    afterReadChecked buffer expected = .ok (afterRead buffer expected) := by
  cases expected with
  | some e => rfl
  | none =>
    unfold afterReadChecked afterRead
    cases hend : headerEnd buffer with
    | none => rfl
    | some place =>
      obtain ⟨offset, len⟩ := place
      have hle := headerEnd_le hend
      have hlen := headerEnd_len hend
      show (if maxHttpHeaderBytes < offset then _ else _) = Except.ok (if _ then _ else _)
      by_cases hlong : maxHttpHeaderBytes < offset
      · rw [if_pos hlong, if_pos hlong]
      rw [if_neg hlong, if_neg hlong, slice_zero (Nat.le_trans (Nat.le_add_right ..) hle), ok_bind]
      simp only
      by_cases hlarge : maxHttpBodyBytes < contentLength (buffer.take offset)
      · rw [if_pos hlarge, if_pos hlarge]
      rw [if_neg hlarge, if_neg hlarge]
      rw [maxHttpHeaderBytes] at hlong
      rw [maxHttpBodyBytes] at hlarge
      rw [checkedAdd_eq (by omega), ok_bind, checkedAdd_eq (by omega), ok_bind]

/-- So does the handling of a message, on a buffer that a machine can hold. -/
theorem handleHttpPostChecked_eq (parse : Bytes → Option Value) {request : Bytes}
    (hsize : request.length < 2 ^ 63) :
    handleHttpPostChecked parse request = .ok (handleHttpPost parse request) := by
  unfold handleHttpPostChecked handleHttpPost
  cases hend : headerEnd request with
  | none => rfl
  | some place =>
    obtain ⟨offset, len⟩ := place
    have hle := headerEnd_le hend
    show postAtChecked parse request offset len = .ok (postAt parse request offset len)
    unfold postAtChecked postAt
    rw [checkedAdd_eq (by omega), ok_bind, slice_zero (by omega), ok_bind]
    generalize hbody : contentLength (request.take offset) = bodyLen
    simp only
    by_cases hlarge : maxHttpBodyBytes < bodyLen
    · rw [if_pos hlarge, if_pos hlarge]
    rw [if_neg hlarge, if_neg hlarge]
    have hsum : offset + len + bodyLen < 2 ^ 64 := by
      rw [maxHttpBodyBytes] at hlarge
      omega
    by_cases hzero : bodyLen = 0
    · rw [if_pos hzero, if_pos (.inl hzero)]
    rw [if_neg hzero, checkedAdd_eq hsum, ok_bind]
    by_cases hshort : request.length < offset + len + bodyLen
    · rw [if_pos hshort, if_pos (.inr hshort)]
    rw [if_neg hshort, if_neg (by simp [hzero, hshort])]
    rw [slice_eq (Nat.le_add_right ..) (Nat.le_of_not_lt hshort), Nat.add_sub_cancel_left, ok_bind]
    cases parse ((request.drop (offset + len)).take bodyLen) with
    | none => rfl
    | some msg => rfl

theorem respondChecked_eq (parse : Bytes → Option Value) (bearer : List Char) {buffer : Bytes}
    (hsize : buffer.length < 2 ^ 63) :
    respondChecked parse bearer buffer = .ok (respond parse bearer buffer) := by
  unfold respondChecked respond
  cases hend : headerEnd buffer with
  | none => rfl
  | some place =>
    obtain ⟨offset, len⟩ := place
    have hle := headerEnd_le hend
    show (slice buffer 0 offset >>= _) = Except.ok
      ((route bearer (methodAndPath buffer) (buffer.take offset)).outcome (handleHttpPost parse buffer))
    rw [slice_zero (by omega), ok_bind]
    cases route bearer (methodAndPath buffer) (buffer.take offset) with
    | message => exact handleHttpPostChecked_eq parse hsize
    | _ => rfl

/-! ## The bound -/

/-- The most bytes a request may be announced to have. -/
def maxAwaited : Nat := maxHttpHeaderBytes + 4 + maxHttpBodyBytes

/-- What holds whenever the loop reads again: the header block was not found and is not
yet too long, or the length is known and not yet there. -/
def Waiting (buffer : Bytes) : Option Expected → Prop
  | none => buffer.length ≤ maxHttpHeaderBytes
  | some e => buffer.length < e.total ∧ e.total ≤ maxAwaited

theorem Waiting.lt {buffer : Bytes} {expected : Option Expected} (h : Waiting buffer expected) :
    buffer.length < maxAwaited := by
  cases expected with
  | none =>
      have h : buffer.length ≤ maxHttpHeaderBytes := h
      rw [maxAwaited, maxHttpBodyBytes]
      omega
  | some e => exact Nat.lt_of_lt_of_le h.1 h.2

theorem waiting_of_awaitBody {buffer : Bytes} {e : Expected} {expected : Option Expected}
    (htotal : e.total ≤ maxAwaited) (h : awaitBody buffer e = .more expected) :
    Waiting buffer expected := by
  unfold awaitBody at h
  by_cases hthere : e.total ≤ buffer.length
  · rw [if_pos hthere] at h
    exact absurd h (by simp)
  · rw [if_neg hthere] at h
    cases h
    exact ⟨Nat.lt_of_not_le hthere, htotal⟩

/-- The loop goes on only while it waits. -/
theorem Waiting.afterRead {buffer chunk : Bytes} {expected expected' : Option Expected}
    (hw : Waiting buffer expected) (h : afterRead (buffer ++ chunk) expected = .more expected') :
    Waiting (buffer ++ chunk) expected' := by
  cases expected with
  | some e => exact waiting_of_awaitBody hw.2 h
  | none =>
    unfold Transport.afterRead at h
    cases hend : headerEnd (buffer ++ chunk) with
    | none =>
        rw [hend] at h
        simp only at h
        by_cases hlong : maxHttpHeaderBytes < (buffer ++ chunk).length
        · rw [if_pos hlong] at h
          exact absurd h (by simp)
        · rw [if_neg hlong] at h
          cases h
          exact Nat.le_of_not_lt hlong
    | some place =>
        obtain ⟨offset, len⟩ := place
        have hlen := headerEnd_len hend
        rw [hend] at h
        simp only at h
        by_cases hlong : maxHttpHeaderBytes < offset
        · rw [if_pos hlong] at h
          exact absurd h (by simp)
        rw [if_neg hlong] at h
        by_cases hlarge : maxHttpBodyBytes < contentLength ((buffer ++ chunk).take offset)
        · rw [if_pos hlarge] at h
          exact absurd h (by simp)
        rw [if_neg hlarge] at h
        refine waiting_of_awaitBody ?_ h
        show offset + len + contentLength ((buffer ++ chunk).take offset) ≤ maxAwaited
        rw [maxAwaited]
        omega

/-- The loop ends within as many reads as bytes may still be awaited, with at most one
read more than these. -/
theorem readLoop_ends {stream : Stream}
    (hreads : ∀ i chunk, stream i = .ok chunk → chunk.length ≤ readSize) {reads : Nat} :
    ∀ {i : Nat} {buffer : Bytes} {expected : Option Expected}, Waiting buffer expected →
      maxAwaited ≤ buffer.length + reads →
      ∃ last, readLoop stream i buffer expected reads = .ok (some last) ∧
        last.buffer.length ≤ maxAwaited + 4095 := by
  induction reads with
  | zero =>
      intro i buffer expected hw hfuel
      exact absurd hw.lt (Nat.not_lt.2 hfuel)
  | succ reads ih =>
      intro i buffer expected hw hfuel
      have hlt := hw.lt
      unfold readLoop
      cases hread : stream i with
      | error err =>
          exact ⟨.failed buffer err, rfl, Nat.le_trans (Nat.le_of_lt hlt) (Nat.le_add_right ..)⟩
      | ok chunk =>
        have hchunk := hreads i chunk hread
        rw [readSize] at hchunk
        simp only
        by_cases hempty : chunk = []
        · rw [if_pos hempty]
          exact ⟨_, rfl, Nat.le_trans (Nat.le_of_lt hlt) (Nat.le_add_right ..)⟩
        rw [if_neg hempty, afterReadChecked_eq]
        have hpos := List.length_pos_iff.2 hempty
        have hlength : (buffer ++ chunk).length = buffer.length + chunk.length := List.length_append
        show ∃ last, (match afterRead (buffer ++ chunk) expected with
          | .more expected => readLoop stream (i + 1) (buffer ++ chunk) expected reads
          | .stop result => .ok (some (.ended (buffer ++ chunk) result))) = .ok (some last) ∧ _
        cases hstep : afterRead (buffer ++ chunk) expected with
        | more expected' => exact ih (hw.afterRead hstep) (by omega)
        | stop result =>
            refine ⟨_, rfl, ?_⟩
            show (buffer ++ chunk).length ≤ _
            omega

/-- The loop ends with a buffer that can be handled. -/
theorem readLoop_respond (parse : Bytes → Option Value) (bearer : List Char) {stream : Stream}
    (hreads : ∀ i chunk, stream i = .ok chunk → chunk.length ≤ readSize) :
    ∃ last, readLoop stream 0 [] none maxAwaited = .ok (some last) ∧
      last.buffer.length ≤ maxAwaited + 4095 ∧
      respondChecked parse bearer last.buffer = .ok (respond parse bearer last.buffer) := by
  have hstart : Waiting [] none := Nat.zero_le _
  obtain ⟨last, hlast, hbound⟩ := readLoop_ends hreads hstart (Nat.le_add_left maxAwaited 0)
  refine ⟨last, hlast, hbound, respondChecked_eq parse bearer ?_⟩
  rw [maxAwaited, maxHttpHeaderBytes, maxHttpBodyBytes] at hbound
  omega

/-- **Reading a request is bounded, and does not panic.**  Whatever comes, in reads of at
most 4096 bytes: the loop ends, after no more reads than the bytes a request may have; the
buffer is then not longer than a header block, its end, a body and the rest of one read;
and neither in the loop nor in what follows does a sum of lengths overflow, or is a slice
out of range. -/
theorem http_reading_bounded (parse : Bytes → Option Value) (bearer : List Char) (stream : Stream)
    (hreads : ∀ i chunk, stream i = .ok chunk → chunk.length ≤ readSize) :
    ∃ last, readLoop stream 0 [] none maxAwaited = .ok (some last) ∧
      last.buffer.length ≤ maxHttpHeaderBytes + 4 + maxHttpBodyBytes + 4095 ∧
      respondChecked parse bearer last.buffer = .ok (respond parse bearer last.buffer) ∧
      ∃ outcome, handleHttpClientChecked parse bearer stream maxAwaited = .ok (some outcome) := by
  obtain ⟨last, hlast, hbound, hrespond⟩ := readLoop_respond parse bearer hreads
  refine ⟨last, hlast, hbound, hrespond, ?_⟩
  unfold handleHttpClientChecked
  rw [hlast, ok_bind]
  cases last with
  | failed buffer err => exact ⟨_, rfl⟩
  | ended buffer result =>
    cases result with
    | rejected answer => exact ⟨_, rfl⟩
    | complete _ expected =>
        have hrespond : respondChecked parse bearer buffer = .ok (respond parse bearer buffer) :=
          hrespond
        refine ⟨.ok (respond parse bearer buffer), ?_⟩
        show (respondChecked parse bearer buffer >>= _) = _
        rw [hrespond]
        rfl

/-- A client that never ends its first line, and sends it byte by byte. -/
theorem http_reading_bounded_endless :
    ∃ last, readLoop (fun _ => .ok [65]) 0 [] none maxAwaited = .ok (some last) ∧
      last.buffer.length ≤ maxHttpHeaderBytes + 4 + maxHttpBodyBytes + 4095 ∧
      respondChecked (fun _ => none) [] last.buffer = .ok (respond (fun _ => none) [] last.buffer) ∧
      ∃ outcome, handleHttpClientChecked (fun _ => none) [] (fun _ => .ok [65]) maxAwaited =
        .ok (some outcome) :=
  http_reading_bounded (fun _ => none) [] (fun _ => .ok [65]) (by
    rintro i chunk ⟨⟩
    decide)

/-! ## The same loop -/

/-- The reads of a list, and then the end of the stream. -/
def streamOf (reads : List Bytes) : Stream := fun i => .ok (reads[i]?.getD [])

theorem afterRead_complete {buffer buffer' : Bytes} {expected expected' : Option Expected}
    (h : afterRead buffer expected = .stop (.complete buffer' expected')) : buffer' = buffer := by
  have hawait : ∀ e, awaitBody buffer e = .stop (.complete buffer' expected') → buffer' = buffer := by
    intro e h
    unfold awaitBody at h
    split at h
    · cases h
      rfl
    · exact absurd h (by simp)
  unfold afterRead at h
  split at h
  · exact hawait _ h
  · split at h
    · split at h
      · exact absurd h (by simp)
      · simp only at h
        split at h
        · exact absurd h (by simp)
        · exact hawait _ h
    · split at h
      · exact absurd h (by simp)
      · exact absurd h (by simp)

theorem read_cons (buffer c : Bytes) (cs : List Bytes) (expected : Option Expected) :
    requestReader.read buffer expected (c :: cs) =
      match afterRead (buffer ++ c) expected with
      | .more expected' => requestReader.read (buffer ++ c) expected' cs
      | .stop result => result := by
  have hchunk : requestReader.chunk (buffer ++ c) expected = afterRead (buffer ++ c) expected := rfl
  rw [Chunks.Reader.read, hchunk]
  cases afterRead (buffer ++ c) expected with
  | more _ => rfl
  | stop _ => rfl

/-- The checked loop ends as the reader does that reads the list. -/
theorem readLoop_of_reads {stream : Stream} {last : LoopEnd} {reads : Nat} :
    ∀ {i : Nat} {buffer : Bytes} {expected : Option Expected} {cs : List Bytes},
      (∀ c ∈ cs, c ≠ []) → (∀ k, stream (i + k) = .ok (cs[k]?.getD [])) →
      readLoop stream i buffer expected reads = .ok (some last) →
      last = .ended last.buffer (requestReader.read buffer expected cs) ∧
        ∀ b e, requestReader.read buffer expected cs = .complete b e → b = last.buffer := by
  induction reads with
  | zero =>
      intro i buffer expected cs _ _ h
      exact absurd (Except.ok.inj h) (by simp)
  | succ reads ih =>
      intro i buffer expected cs hne hstream h
      unfold readLoop at h
      rw [show stream i = .ok (cs[0]?.getD []) from hstream 0] at h
      cases cs with
      | nil =>
          cases h
          refine ⟨rfl, ?_⟩
          rintro b e ⟨⟩
          rfl
      | cons c cs =>
          have hc : c ≠ [] := hne c List.mem_cons_self
          simp only [List.getElem?_cons_zero, Option.getD_some, if_neg hc, afterReadChecked_eq,
            ok_bind] at h
          cases hstep : afterRead (buffer ++ c) expected with
          | more expected' =>
              rw [hstep] at h
              rw [read_cons, hstep]
              refine ih (fun c' hc' => hne c' (List.mem_cons_of_mem _ hc')) (fun k => ?_) h
              have hk := hstream (k + 1)
              rw [Nat.add_assoc, Nat.add_comm 1 k]
              exact hk
          | stop result =>
              rw [hstep] at h
              cases h
              rw [read_cons, hstep]
              refine ⟨rfl, ?_⟩
              rintro b e rfl
              exact afterRead_complete hstep

/-- **The checked handler is the handler**, on every stream that ends. -/
theorem handleHttpClientChecked_eq (parse : Bytes → Option Value) (bearer : List Char)
    {reads : List Bytes} (hne : ∀ c ∈ reads, c ≠ []) (hbound : ∀ c ∈ reads, c.length ≤ readSize) :
    handleHttpClientChecked parse bearer (streamOf reads) maxAwaited =
      .ok (some (.ok (handleHttpClient parse bearer reads))) := by
  have hreads : ∀ i chunk, streamOf reads i = .ok chunk → chunk.length ≤ readSize := by
    rintro i chunk ⟨⟩
    cases hi : reads[i]? with
    | none => exact Nat.zero_le _
    | some c => exact hbound c (List.mem_of_getElem? hi)
  obtain ⟨last, hlast, -, hrespond⟩ := readLoop_respond parse bearer hreads
  obtain ⟨hend, hsame⟩ := readLoop_of_reads hne (fun k => by rw [Nat.zero_add]; rfl) hlast
  unfold handleHttpClientChecked handleHttpClient readRequest
  rw [hlast, ok_bind, hend]
  cases hread : requestReader.read [] none reads with
  | rejected answer => rfl
  | complete buffer expected =>
      obtain rfl := hsame buffer expected hread
      show (respondChecked parse bearer last.buffer >>= _) = _
      rw [hrespond]
      rfl

end Transport
end FolkAround
