import FolkAround.Transport.P2P

/-!
# Standard input and output

Messages come in on a byte stream in one of two framings, chosen anew for each
message: a header block with a content length, followed by that many bytes, or a
plain line.  Answers go out in the first.

* `readLine`, `readStdioMessage` — reading a line and a message; `readAll` reads
  messages until there are none.
* `runStdio` — the loop of the server.
* `Piece` — what a peer may write: frames, raw lines and blank lines, each with the
  conditions that make it one.
* `readAll_pieces` — every such input is read as what was written.
* `stdio_end_to_end` — and answered message by message, in frames.
-/

namespace FolkAround
namespace Transport

/-! ## Reading -/

/-- `isize::MAX`, the most bytes an allocation holds. -/
def isizeMax : Nat := 2 ^ 63 - 1

/-- The bytes up to and including the first line feed, and the rest. -/
def takeLine : Bytes → Bytes × Bytes
  | [] => ([], [])
  | b :: bs => if b = 10 then ([b], bs) else (b :: (takeLine bs).1, (takeLine bs).2)

/-- What `read_line` makes of an input. -/
inductive LineRead where
  /-- The line is no UTF-8. -/
  | invalid
  /-- Nothing is left. -/
  | eof
  | line (text : List Char) (rest : Bytes)

def readLine (input : Bytes) : LineRead :=
  if input = [] then .eof
  else
    match Utf8.fromUtf8 (takeLine input).1 with
    | none => .invalid
    | some text => .line text (takeLine input).2

theorem takeLine_rest_lt {input : Bytes} (h : input ≠ []) :
    (takeLine input).2.length < input.length := by
  induction input with
  | nil => exact absurd rfl h
  | cons b bs ih =>
      rw [takeLine]
      by_cases hb : b = 10
      · rw [if_pos hb]
        exact Nat.lt_succ_self _
      · rw [if_neg hb]
        cases bs with
        | nil => exact Nat.lt_succ_self _
        | cons x xs => exact Nat.lt_succ_of_lt (ih (by simp))

/-- A line takes something away from the input. -/
theorem readLine_rest_lt {input rest : Bytes} {text : List Char}
    (h : readLine input = .line text rest) : rest.length < input.length := by
  unfold readLine at h
  split at h
  · exact absurd h (by simp)
  · next hne =>
      split at h
      · exact absurd h (by simp)
      · obtain ⟨-, rfl⟩ := LineRead.line.inj h
        exact takeLine_rest_lt hne

/-- How reading or answering can end the server. -/
inductive Failure where
  | error (err : TransportError)
  /-- A slice or the allocation of the body panics. -/
  | panic
  deriving DecidableEq

/-- Skip the header lines up to the first blank one; `none` at the end of the input. -/
def skipHeaders (input : Bytes) : Except Failure (Option Bytes) :=
  match _h : readLine input with
  | .invalid => .error (.error .io)
  | .eof => .ok none
  | .line text rest => if Text.trim text = [] then .ok (some rest) else skipHeaders rest
termination_by input.length
decreasing_by exact readLine_rest_lt _h

def contentLengthPrefix : List Char := "content-length:".toList

/-- The length a header line announces, cut out of it by a slice; an unreadable one counts
as 0. -/
def announcedLengthChecked (trimmed : List Char) : Except Failure Nat :=
  match Utf8.sliceFrom trimmed (Utf8.encode contentLengthPrefix).length with
  | none => .error .panic
  | some value => .ok ((Text.parseUnsigned (2 ^ 64) (Text.trim value)).getD 0)

/-- The body after the headers. -/
def readBody (len : Nat) (input : Bytes) : Except Failure (Option (Bytes × Bytes)) :=
  if isizeMax < len then .error .panic
  else if input.length < len then .error (.error .io)
  else .ok (some (input.take len, input.drop len))

/-- One message and what is left after it; `none` at the end of the input. -/
def readStdioMessage (input : Bytes) : Except Failure (Option (Bytes × Bytes)) :=
  match _h : readLine input with
  | .invalid => .error (.error .io)
  | .eof => .ok none
  | .line firstLine rest =>
    let trimmed := Text.trim firstLine
    if trimmed = [] then readStdioMessage rest
    else if ¬ contentLengthPrefix <+: Text.toAsciiLowercase trimmed then
      .ok (some (Utf8.encode trimmed, rest))
    else
      match announcedLengthChecked trimmed with
      | .error err => .error err
      | .ok len =>
        match skipHeaders rest with
        | .error err => .error err
        | .ok none => .ok none
        | .ok (some rest) => readBody len rest
termination_by input.length
decreasing_by exact readLine_rest_lt _h

theorem skipHeaders_line {input rest : Bytes} {text : List Char}
    (h : readLine input = .line text rest) :
    skipHeaders input = if Text.trim text = [] then .ok (some rest) else skipHeaders rest := by
  rw [skipHeaders]
  split
  · next h' => exact absurd (h.symm.trans h') (by simp)
  · next h' => exact absurd (h.symm.trans h') (by simp)
  · next h' =>
      obtain ⟨rfl, rfl⟩ := LineRead.line.inj (h.symm.trans h')
      rfl

/-- The length a header line announces, in characters. -/
def announcedLength (trimmed : List Char) : Nat :=
  (Text.parseUnsigned (2 ^ 64) (Text.trim (trimmed.drop contentLengthPrefix.length))).getD 0

/-- The slice is in range: what is in lower case the name of the header is as long as it. -/
theorem announcedLengthChecked_eq {trimmed : List Char}
    (h : contentLengthPrefix <+: Text.toAsciiLowercase trimmed) :
    announcedLengthChecked trimmed = .ok (announcedLength trimmed) := by
  obtain ⟨name, value, rfl, hname⟩ := Text.prefix_toAsciiLowercase h
  have hlowercase : contentLengthPrefix.all (fun d => decide (d.toNat < 0x80)) = true := by decide
  have hascii : ∀ c ∈ name, c.toNat < 0x80 := by
    intro c hc
    have hlower : c.toLower ∈ contentLengthPrefix := by
      rw [← hname]
      exact List.mem_map_of_mem hc
    exact Text.lt_of_toLower (of_decide_eq_true (List.all_eq_true.1 hlowercase _ hlower))
  have hlength : name.length = contentLengthPrefix.length := by
    rw [← hname, Text.toAsciiLowercase, List.length_map]
  have hbytes : (Utf8.encode contentLengthPrefix).length = (Utf8.encode name).length := by
    rw [Utf8.length_encode_of_ascii hascii, hlength]
    decide
  rw [announcedLengthChecked, hbytes, Utf8.sliceFrom_append, announcedLength, ← hlength,
    List.drop_left]

theorem readStdioMessage_line {input rest : Bytes} {text : List Char}
    (h : readLine input = .line text rest) :
    readStdioMessage input =
      if Text.trim text = [] then readStdioMessage rest
      else if ¬ contentLengthPrefix <+: Text.toAsciiLowercase (Text.trim text) then
        .ok (some (Utf8.encode (Text.trim text), rest))
      else
        match skipHeaders rest with
        | .error err => .error err
        | .ok none => .ok none
        | .ok (some rest) => readBody (announcedLength (Text.trim text)) rest := by
  rw [readStdioMessage]
  split
  · next h' => exact absurd (h.symm.trans h') (by simp)
  · next h' => exact absurd (h.symm.trans h') (by simp)
  · next h' =>
      obtain ⟨rfl, rfl⟩ := LineRead.line.inj (h.symm.trans h')
      dsimp only
      split
      · rfl
      · split
        · rfl
        · next hheader => rw [announcedLengthChecked_eq (not_not.1 hheader)]

/-- Unless there is a line, there is no message. -/
theorem exists_line_of_skipHeaders {input rest : Bytes}
    (h : skipHeaders input = .ok (some rest)) : ∃ text next, readLine input = .line text next := by
  rw [skipHeaders] at h
  split at h
  · exact absurd h (by simp)
  · exact absurd h (by simp)
  · next h' => exact ⟨_, _, h'⟩

theorem exists_line_of_readStdioMessage {input : Bytes} {message : Bytes × Bytes}
    (h : readStdioMessage input = .ok (some message)) :
    ∃ text next, readLine input = .line text next := by
  rw [readStdioMessage] at h
  split at h
  · exact absurd h (by simp)
  · exact absurd h (by simp)
  · next h' => exact ⟨_, _, h'⟩

theorem skipHeaders_rest_le {input rest : Bytes} (h : skipHeaders input = .ok (some rest)) :
    rest.length ≤ input.length := by
  induction hn : input.length using Nat.strongRecOn generalizing input with
  | ind n ih =>
      obtain ⟨text, next, hl⟩ := exists_line_of_skipHeaders h
      have hlt := readLine_rest_lt hl
      rw [skipHeaders_line hl] at h
      split at h
      · simp only [Except.ok.injEq, Option.some.injEq] at h
        subst h
        omega
      · have := ih next.length (hn ▸ hlt) h rfl
        omega

theorem readBody_rest_le {len : Nat} {input body rest : Bytes}
    (h : readBody len input = .ok (some (body, rest))) : rest.length ≤ input.length := by
  unfold readBody at h
  split at h
  · exact absurd h (by simp)
  · split at h
    · exact absurd h (by simp)
    · simp only [Except.ok.injEq, Option.some.injEq, Prod.mk.injEq] at h
      rw [← h.2, List.length_drop]
      omega

/-- A message takes something away from the input. -/
theorem readStdioMessage_rest_lt {input body rest : Bytes}
    (h : readStdioMessage input = .ok (some (body, rest))) : rest.length < input.length := by
  induction hn : input.length using Nat.strongRecOn generalizing input with
  | ind n ih =>
      obtain ⟨text, next, hl⟩ := exists_line_of_readStdioMessage h
      have hlt := readLine_rest_lt hl
      rw [readStdioMessage_line hl] at h
      split at h
      · have := ih next.length (hn ▸ hlt) h rfl
        omega
      · split at h
        · simp only [Except.ok.injEq, Option.some.injEq, Prod.mk.injEq] at h
          rw [← h.2]
          omega
        · split at h
          · exact absurd h (by simp)
          · exact absurd h (by simp)
          · next left hs =>
              have hskip := skipHeaders_rest_le hs
              have hbody := readBody_rest_le h
              omega

/-- The bodies of all messages, up to the end of the input. -/
def readAll (input : Bytes) : Except Failure (List Bytes) :=
  match _h : readStdioMessage input with
  | .error err => .error err
  | .ok none => .ok []
  | .ok (some (body, rest)) =>
    match readAll rest with
    | .error err => .error err
    | .ok bodies => .ok (body :: bodies)
termination_by input.length
decreasing_by exact readStdioMessage_rest_lt _h

/-! ## The server -/

/-- A text that fits into memory. -/
abbrev Response := { s : String // (Utf8.encode s.toList).length ≤ isizeMax }

def Response.bytes (out : Response) : Bytes := Utf8.encode out.val.toList

def headerName : List Char := "Content-Length: ".toList

/-- The header line of a frame with these digits, without its end. -/
def headerLine (digits : List Char) : List Char := headerName ++ digits

def headersEnd : List Char := "\r\n\r\n".toList

/-- The frame around a body. -/
def frameBytes (body : Bytes) : Bytes :=
  Utf8.encode (headerLine (Nat.toDigits 10 body.length) ++ headersEnd) ++ body

/-- The server when it has ended: the state of its tools, what it wrote, and how. -/
structure StdioRun (σ : Type) where
  state : σ
  output : Bytes
  result : Except Failure Unit

variable {σ : Type}

/-- The loop of the server.  `parse` reads JSON, `handle` answers a message. -/
def runStdio (parse : Bytes → Option Value)
    (handle : σ → Value → σ × Except TransportError (Option Response)) (s : σ) (input : Bytes) :
    StdioRun σ :=
  match _h : readStdioMessage input with
  | .error err => ⟨s, [], .error err⟩
  | .ok none => ⟨s, [], .ok ()⟩
  | .ok (some (body, rest)) =>
    match parse body with
    | none => runStdio parse handle s rest
    | some msg =>
      match handle s msg with
      | (s, .error err) => ⟨s, [], .error (.error err)⟩
      | (s, .ok none) => runStdio parse handle s rest
      | (s, .ok (some out)) =>
        let run := runStdio parse handle s rest
        { run with output := frameBytes out.bytes ++ run.output }
termination_by input.length
decreasing_by all_goals exact readStdioMessage_rest_lt _h

/-! ## What a peer may write -/

/-- A line of text that is neither blank nor a header. -/
structure RawLine where
  text : List Char
  oneLine : '\n' ∉ text
  notBlank : Text.trim text ≠ []
  notHeader : ¬ contentLengthPrefix <+: Text.toAsciiLowercase (Text.trim text)

/-- A line of white space. -/
structure BlankLine where
  text : List Char
  oneLine : '\n' ∉ text
  blank : ∀ c ∈ text, Text.isWhitespace c = true

/-- A frame, a raw line, or a blank line between them. -/
inductive Piece where
  | frame (body : { body : Bytes // body.length ≤ isizeMax })
  | raw (line : RawLine)
  | blank (line : BlankLine)

/-- How a piece is written. -/
def Piece.bytes : Piece → Bytes
  | .frame body => frameBytes body.val
  | .raw line => Utf8.encode (line.text ++ ['\n'])
  | .blank line => Utf8.encode (line.text ++ ['\n'])

/-- The message in a piece, if it holds one. -/
def Piece.body : Piece → Option Bytes
  | .frame body => some body.val
  | .raw line => some (Utf8.encode (Text.trim line.text))
  | .blank _ => none

/-! ## Reading what was written -/

theorem takeLine_append {xs : Bytes} (h : (10 : UInt8) ∉ xs) (rest : Bytes) :
    takeLine (xs ++ 10 :: rest) = (xs ++ [10], rest) := by
  induction xs with
  | nil => rfl
  | cons x xs ih =>
      rw [List.mem_cons, not_or] at h
      rw [List.cons_append, takeLine, if_neg (Ne.symm h.1), ih h.2, List.cons_append]

theorem encode_line (text : List Char) :
    Utf8.encode (text ++ ['\n']) = Utf8.encode text ++ [10] := by
  rw [Utf8.encode_append]
  rfl

/-- A line of text is read as it was written. -/
theorem readLine_encode {text : List Char} (h : '\n' ∉ text) (rest : Bytes) :
    readLine (Utf8.encode (text ++ ['\n']) ++ rest) = .line (text ++ ['\n']) rest := by
  have hlf : (10 : UInt8) ∉ Utf8.encode text := fun hc => h (Utf8.mem_encode_ascii (by decide) hc)
  have hsplit : Utf8.encode (text ++ ['\n']) ++ rest = Utf8.encode text ++ 10 :: rest := by
    rw [encode_line, List.append_assoc]
    rfl
  have hne : Utf8.encode text ++ 10 :: rest ≠ [] := by simp
  rw [hsplit, readLine, if_neg hne, takeLine_append hlf, ← encode_line, Utf8.fromUtf8_encode]

theorem trim_line (text : List Char) : Text.trim (text ++ ['\n']) = Text.trim text :=
  Text.trim_append_whitespace (List.forall_mem_singleton.2 rfl) text

/-- A blank line is skipped. -/
theorem readStdioMessage_blank (line : BlankLine) (rest : Bytes) :
    readStdioMessage (Piece.bytes (.blank line) ++ rest) = readStdioMessage rest := by
  rw [Piece.bytes, readStdioMessage_line (readLine_encode line.oneLine rest), trim_line,
    Text.trim_eq_nil line.blank, if_pos rfl]

/-- A raw line is a message. -/
theorem readStdioMessage_raw (line : RawLine) (rest : Bytes) :
    readStdioMessage (Piece.bytes (.raw line) ++ rest) =
      .ok (some (Utf8.encode (Text.trim line.text), rest)) := by
  rw [Piece.bytes, readStdioMessage_line (readLine_encode line.oneLine rest), trim_line,
    if_neg line.notBlank, if_pos line.notHeader]

/-! ## Frames -/

section Digits

variable {digits : List Char} (hdig : ∀ c ∈ digits, c.isDigit = true) (hne : digits ≠ [])
include hdig hne

theorem exists_last_digit : ∃ ds d, digits = ds ++ [d] ∧ Text.isWhitespace d = false := by
  obtain ⟨ds, d, h⟩ := (List.eq_nil_or_concat digits).resolve_left hne
  rw [List.concat_eq_append] at h
  have hd : d ∈ digits := by
    rw [h]
    exact List.mem_append_right ds (List.mem_singleton_self d)
  exact ⟨ds, d, h, Text.isWhitespace_of_isDigit (hdig d hd)⟩

theorem trim_digits : Text.trim digits = digits := by
  obtain ⟨ds, d, hlast, hd⟩ := exists_last_digit hdig hne
  obtain ⟨e, es, hfirst⟩ := List.exists_cons_of_ne_nil hne
  have he : e ∈ digits := by
    rw [hfirst]
    exact List.mem_cons_self
  exact Text.trim_eq_self hfirst (Text.isWhitespace_of_isDigit (hdig e he)) ⟨ds, hlast⟩ hd

theorem trim_headerLine : Text.trim (headerLine digits) = headerLine digits := by
  obtain ⟨ds, d, hlast, hd⟩ := exists_last_digit hdig hne
  have hname : headerName = 'C' :: "ontent-Length: ".toList := rfl
  have hstart : headerLine digits = 'C' :: ("ontent-Length: ".toList ++ digits) :=
    congrArg (· ++ digits) hname
  have hend : headerLine digits = (headerName ++ ds) ++ [d] := by
    rw [headerLine, hlast]
    exact (List.append_assoc _ _ _).symm
  exact Text.trim_eq_self hstart (by decide) ⟨_, hend⟩ hd

end Digits

theorem announces_headerLine (digits : List Char) :
    contentLengthPrefix <+: Text.toAsciiLowercase (headerLine digits) := by
  have hname : Text.toAsciiLowercase headerName = contentLengthPrefix ++ [' '] := by
    decide +kernel
  have hline : Text.toAsciiLowercase (headerLine digits) =
      contentLengthPrefix ++ ([' '] ++ Text.toAsciiLowercase digits) := by
    rw [headerLine, Text.toAsciiLowercase, List.map_append, ← Text.toAsciiLowercase, hname]
    exact List.append_assoc _ _ _
  exact ⟨_, hline.symm⟩

theorem isDigit_of_mem_toDigits {len : Nat} :
    ∀ c ∈ Nat.toDigits 10 len, c.isDigit = true :=
  fun _ hc => Nat.isDigit_of_mem_toDigits (by decide) (by decide) hc

/-- The length in the header of a frame is read back. -/
theorem announcedLength_headerLine {len : Nat} (h : len < 2 ^ 64) :
    announcedLength (headerLine (Nat.toDigits 10 len)) = len := by
  have hdrop : ∀ digits, (headerLine digits).drop contentLengthPrefix.length = ' ' :: digits :=
    fun _ => rfl
  rw [announcedLength, hdrop, Text.trim_cons_whitespace (by decide),
    trim_digits isDigit_of_mem_toDigits Nat.toDigits_ne_nil, Text.parseUnsigned_toDigits h]
  exact Option.getD_some

/-- The line that ends the headers. -/
theorem skipHeaders_blank (rest : Bytes) :
    skipHeaders (Utf8.encode ['\r', '\n'] ++ rest) = .ok (some rest) := by
  have hline : readLine (Utf8.encode ['\r', '\n'] ++ rest) = .line ['\r', '\n'] rest :=
    @readLine_encode ['\r'] (by decide) rest
  rw [skipHeaders_line hline, if_pos (by decide)]

/-- The header line and its end hold one line feed, at the end. -/
theorem newline_not_mem_headerLine {digits : List Char}
    (hdig : ∀ c ∈ digits, c.isDigit = true) : '\n' ∉ headerLine digits ++ ['\r'] := by
  intro hc
  rcases List.mem_append.1 hc with hc | hc
  · rcases List.mem_append.1 hc with hc | hc
    · exact absurd hc (by decide)
    · exact absurd (hdig _ hc) (by decide)
  · exact absurd hc (by decide)

/-- A frame is its header line, a blank line, and then the body. -/
theorem frameBytes_append (body rest : Bytes) :
    frameBytes body ++ rest =
      Utf8.encode ((headerLine (Nat.toDigits 10 body.length) ++ ['\r']) ++ ['\n']) ++
        (Utf8.encode ['\r', '\n'] ++ (body ++ rest)) := by
  have hcrlf : headersEnd = (['\r'] ++ ['\n']) ++ ['\r', '\n'] := rfl
  rw [frameBytes, hcrlf, ← List.append_assoc, ← List.append_assoc, Utf8.encode_append]
  simp only [List.append_assoc]

/-- A frame is a message, whatever its body. -/
theorem readStdioMessage_frame (body : { body : Bytes // body.length ≤ isizeMax }) (rest : Bytes) :
    readStdioMessage (Piece.bytes (.frame body) ++ rest) = .ok (some (body.val, rest)) := by
  obtain ⟨body, hbody⟩ := body
  have hbound : body.length < 2 ^ 64 := lt_of_le_of_lt hbody (by decide)
  have hdig : ∀ c ∈ Nat.toDigits 10 body.length, c.isDigit = true := isDigit_of_mem_toDigits
  have htrim : Text.trim ((headerLine (Nat.toDigits 10 body.length) ++ ['\r']) ++ ['\n']) =
      headerLine (Nat.toDigits 10 body.length) := by
    rw [trim_line, Text.trim_append_whitespace (List.forall_mem_singleton.2 rfl),
      trim_headerLine hdig Nat.toDigits_ne_nil]
  have hne : headerLine (Nat.toDigits 10 body.length) ≠ [] :=
    List.append_ne_nil_of_left_ne_nil (by decide) _
  rw [Piece.bytes, frameBytes_append,
    readStdioMessage_line (readLine_encode (newline_not_mem_headerLine hdig) _), htrim,
    if_neg hne, if_neg (not_not_intro (announces_headerLine _))]
  simp only [skipHeaders_blank, announcedLength_headerLine hbound]
  rw [readBody, if_neg (not_lt.2 hbody), if_neg (by rw [List.length_append]; omega),
    List.take_left, List.drop_left]

/-! ## Whole inputs -/

theorem readStdioMessage_nil : readStdioMessage [] = .ok none := by
  have hl : readLine [] = .eof := rfl
  rw [readStdioMessage]
  split
  · next h => exact absurd (hl.symm.trans h) (by simp)
  · rfl
  · next h => exact absurd (hl.symm.trans h) (by simp)

/-- What the next piece makes of the next message. -/
theorem readStdioMessage_piece (piece : Piece) (rest : Bytes) :
    readStdioMessage (piece.bytes ++ rest) =
      match piece.body with
      | none => readStdioMessage rest
      | some body => .ok (some (body, rest)) := by
  cases piece with
  | frame body => exact readStdioMessage_frame body rest
  | raw line => exact readStdioMessage_raw line rest
  | blank line => exact readStdioMessage_blank line rest

/-- The steps of `readAll`. -/
theorem readAll_eq (input : Bytes) :
    readAll input =
      match readStdioMessage input with
      | .error err => .error err
      | .ok none => .ok []
      | .ok (some (body, rest)) =>
        match readAll rest with
        | .error err => .error err
        | .ok bodies => .ok (body :: bodies) := by
  rw [readAll]
  split <;> simp_all only

def encodePieces (pieces : List Piece) : Bytes := pieces.flatMap Piece.bytes

def bodies (pieces : List Piece) : List Bytes := pieces.filterMap Piece.body

/-- **Framing.** Whatever a peer writes is read as what it wrote. -/
theorem readAll_pieces (pieces : List Piece) :
    readAll (encodePieces pieces) = .ok (bodies pieces) := by
  induction pieces with
  | nil =>
      show readAll [] = .ok []
      rw [readAll_eq, readStdioMessage_nil]
  | cons piece pieces ih =>
      rw [encodePieces, List.flatMap_cons, ← encodePieces, readAll_eq, readStdioMessage_piece,
        bodies]
      cases hbody : piece.body with
      | none =>
          -- the piece is skipped: the next message is that of the pieces after it
          rw [List.filterMap_cons_none hbody, ← bodies, ← ih, readAll_eq]
      | some body =>
          simp only [ih]
          rw [List.filterMap_cons_some hbody, bodies]

/-! ## The server on such an input -/

theorem runStdio_eq (parse : Bytes → Option Value)
    (handle : σ → Value → σ × Except TransportError (Option Response)) (s : σ) (input : Bytes) :
    runStdio parse handle s input =
      match readStdioMessage input with
      | .error err => ⟨s, [], .error err⟩
      | .ok none => ⟨s, [], .ok ()⟩
      | .ok (some (body, rest)) =>
        match parse body with
        | none => runStdio parse handle s rest
        | some msg =>
          match handle s msg with
          | (s, .error err) => ⟨s, [], .error (.error err)⟩
          | (s, .ok none) => runStdio parse handle s rest
          | (s, .ok (some out)) =>
            let run := runStdio parse handle s rest
            { run with output := frameBytes out.bytes ++ run.output } := by
  rw [runStdio]
  split <;> simp_all only

/-- The messages answered one after the other, up to the first failure: the state, the
responses, and how it ended. -/
def respondAll (handle : σ → Value → σ × Except TransportError (Option Response)) (s : σ) :
    List Value → σ × List Response × Except Failure Unit
  | [] => (s, [], .ok ())
  | msg :: msgs =>
    match handle s msg with
    | (s, .error err) => (s, [], .error (.error err))
    | (s, .ok none) => respondAll handle s msgs
    | (s, .ok (some out)) =>
      let (s, outs, result) := respondAll handle s msgs
      (s, out :: outs, result)

/-- The frame of a response. -/
def Response.piece (out : Response) : Piece := .frame ⟨out.bytes, out.property⟩

theorem bodies_responses (outs : List Response) :
    bodies (outs.map Response.piece) = outs.map Response.bytes := by
  induction outs with
  | nil => rfl
  | cons out outs ih => exact congrArg (out.bytes :: ·) ih

/-- The server answers the messages in the bodies, in order. -/
theorem runStdio_pieces (parse : Bytes → Option Value)
    (handle : σ → Value → σ × Except TransportError (Option Response)) (s : σ)
    (pieces : List Piece) :
    runStdio parse handle s (encodePieces pieces) =
      let (s, outs, result) := respondAll handle s ((bodies pieces).filterMap parse)
      ⟨s, encodePieces (outs.map Response.piece), result⟩ := by
  induction pieces generalizing s with
  | nil =>
      show runStdio parse handle s [] = _
      rw [runStdio_eq, readStdioMessage_nil]
      rfl
  | cons piece pieces ih =>
      rw [encodePieces, List.flatMap_cons, ← encodePieces, runStdio_eq, readStdioMessage_piece,
        bodies]
      cases hbody : piece.body with
      | none =>
          rw [List.filterMap_cons_none hbody, ← bodies, ← ih, runStdio_eq]
      | some body =>
          rw [List.filterMap_cons_some hbody, ← bodies]
          cases hmsg : parse body with
          | none =>
              rw [List.filterMap_cons_none hmsg]
              simp only [hmsg]
              exact ih s
          | some msg =>
              rw [List.filterMap_cons_some hmsg, respondAll]
              rcases hh : handle s msg with ⟨s', err | out | out⟩
              · simp only [hmsg, hh]
                rfl
              · simp only [hmsg, hh]
                exact ih s'
              · simp only [hmsg, hh, ih]
                rfl

/-- **Standard input and output, end to end.** Frames and raw lines, with blank lines
between them, are read as the frame bodies and the trimmed lines, in order.  The server on
the same input skips those that are not JSON, passes the others to the handler in order,
and what it writes is read back, by the same reader, as the handler's responses. -/
theorem stdio_end_to_end (parse : Bytes → Option Value)
    (handle : σ → Value → σ × Except TransportError (Option Response)) (s : σ)
    (pieces : List Piece) :
    readAll (encodePieces pieces) = .ok (bodies pieces) ∧
      let run := runStdio parse handle s (encodePieces pieces)
      let (s', outs, result) := respondAll handle s ((bodies pieces).filterMap parse)
      run.state = s' ∧ run.result = result ∧ readAll run.output = .ok (outs.map Response.bytes) := by
  refine ⟨readAll_pieces pieces, ?_⟩
  rw [runStdio_pieces]
  refine ⟨rfl, rfl, ?_⟩
  rw [readAll_pieces, bodies_responses]

end Transport
end FolkAround
