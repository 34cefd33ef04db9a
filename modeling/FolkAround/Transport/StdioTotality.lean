import Mathlib.Logic.Relation
import FolkAround.Transport.Stdio

/-!
# Reading from standard input is total, but for one kind of frame

The length of a frame is taken out of its header line by a slice, and the body is
allocated before a byte of it has come: both may panic.  The slice is always in range
(`announcedLengthChecked_eq`), so it is the allocation that matters.

* `HeadersEnd`, `NextMessage` — what the next message of an input is, as a grammar.
* `Oversized` — an input whose next message is a frame that no vector can hold.
* `Total` — every call returns, every message takes something from the input, and the
  calls come to an end.
* `stdio_total_iff` — an input is read totally exactly if none of its frames is oversized.
-/

namespace FolkAround
namespace Transport

open Relation

/-! ## What is next in an input -/

/-- The header lines end with a blank one, and this is left after it. -/
inductive HeadersEnd : Bytes → Bytes → Prop
  | blank {input rest : Bytes} {text : List Char} : readLine input = .line text rest →
      Text.trim text = [] → HeadersEnd input rest
  | header {input next rest : Bytes} {text : List Char} : readLine input = .line text next →
      Text.trim text ≠ [] → HeadersEnd next rest → HeadersEnd input rest

/-- A line that begins with the name of the header, in upper or lower case. -/
abbrev IsHeader (text : List Char) : Prop :=
  contentLengthPrefix <+: Text.toAsciiLowercase (Text.trim text)

/-- The next message of an input, and what is left after it. -/
inductive NextMessage : Bytes → Bytes → Bytes → Prop
  | blank {input next body rest : Bytes} {text : List Char} : readLine input = .line text next →
      Text.trim text = [] → NextMessage next body rest → NextMessage input body rest
  | raw {input rest : Bytes} {text : List Char} : readLine input = .line text rest →
      Text.trim text ≠ [] → ¬ IsHeader text → NextMessage input (Utf8.encode (Text.trim text)) rest
  | frame {input headers content : Bytes} {text : List Char} :
      readLine input = .line text headers → IsHeader text → HeadersEnd headers content →
      announcedLength (Text.trim text) ≤ isizeMax →
      announcedLength (Text.trim text) ≤ content.length →
      NextMessage input (content.take (announcedLength (Text.trim text)))
        (content.drop (announcedLength (Text.trim text)))

/-- The next message of an input is a frame longer than a vector may be. -/
inductive Oversized : Bytes → Prop
  | blank {input next : Bytes} {text : List Char} : readLine input = .line text next →
      Text.trim text = [] → Oversized next → Oversized input
  | frame {input headers content : Bytes} {text : List Char} :
      readLine input = .line text headers → IsHeader text → HeadersEnd headers content →
      isizeMax < announcedLength (Text.trim text) → Oversized input

theorem headersEnd_iff {input rest : Bytes} :
    skipHeaders input = .ok (some rest) ↔ HeadersEnd input rest := by
  constructor
  · intro h
    fun_induction skipHeaders input with
    | case1 input hl => exact absurd h (by simp)
    | case2 input hl => exact absurd h (by simp)
    | case3 input text next hl hblank =>
        obtain rfl : next = rest := by simpa using h
        exact .blank hl hblank
    | case4 input text next hl hblank ih => exact .header hl hblank (ih h)
  · intro h
    induction h with
    | blank hl hblank => rw [skipHeaders_line hl, if_pos hblank]
    | header hl hblank _ ih => rw [skipHeaders_line hl, if_neg hblank, ih]

theorem skipHeaders_ne_panic (input : Bytes) : skipHeaders input ≠ .error .panic := by
  fun_induction skipHeaders input with
  | case1 input hl => simp
  | case2 input hl => simp
  | case3 input text next hl hblank => simp
  | case4 input text next hl hblank ih => exact ih

theorem IsHeader.ne_nil {text : List Char} (h : IsHeader text) : Text.trim text ≠ [] := by
  intro hnil
  rw [IsHeader, hnil] at h
  exact absurd (List.prefix_nil.1 h) (by decide)

/-- What a frame is read as, once its headers are skipped. -/
theorem readStdioMessage_header {input headers content : Bytes} {text : List Char}
    (hl : readLine input = .line text headers) (hheader : IsHeader text)
    (hend : HeadersEnd headers content) :
    readStdioMessage input = readBody (announcedLength (Text.trim text)) content := by
  rw [readStdioMessage_line hl, if_neg hheader.ne_nil, if_neg (not_not_intro hheader),
    headersEnd_iff.2 hend]

/-- **Messages.**  A call gives a message exactly if the grammar has it next. -/
theorem message_iff {input body rest : Bytes} :
    readStdioMessage input = .ok (some (body, rest)) ↔ NextMessage input body rest := by
  constructor
  · intro h
    fun_induction readStdioMessage input with
    | case1 input hl => exact absurd h (by simp)
    | case2 input hl => exact absurd h (by simp)
    | case3 input text next hl trimmed hblank ih => exact .blank hl hblank (ih h)
    | case4 input text next hl trimmed hblank hraw =>
        simp only [Except.ok.injEq, Option.some.injEq, Prod.mk.injEq] at h
        obtain ⟨rfl, rfl⟩ := h
        exact .raw hl hblank hraw
    | case5 => exact absurd h (by simp)
    | case6 => exact absurd h (by simp)
    | case7 => exact absurd h (by simp)
    | case8 input text headers hl trimmed hblank hheader len hlen content hskip =>
        rw [announcedLengthChecked_eq (not_not.1 hheader), Except.ok.injEq] at hlen
        subst hlen
        unfold readBody at h
        split at h
        · exact absurd h (by simp)
        · next hsize =>
            split at h
            · exact absurd h (by simp)
            · next hlength =>
                simp only [Except.ok.injEq, Option.some.injEq, Prod.mk.injEq] at h
                obtain ⟨rfl, rfl⟩ := h
                exact .frame hl (not_not.1 hheader) (headersEnd_iff.1 hskip) (not_lt.1 hsize)
                  (not_lt.1 hlength)
  · intro h
    induction h with
    | blank hl hblank _ ih => rw [readStdioMessage_line hl, if_pos hblank, ih]
    | raw hl hblank hraw => rw [readStdioMessage_line hl, if_neg hblank, if_pos hraw]
    | frame hl hheader hend hsize hlength =>
        rw [readStdioMessage_header hl hheader hend, readBody, if_neg (not_lt.2 hsize),
          if_neg (not_lt.2 hlength)]

/-- **The panic.**  A call panics exactly on a frame longer than a vector may be. -/
theorem oversized_iff {input : Bytes} :
    readStdioMessage input = .error .panic ↔ Oversized input := by
  constructor
  · intro h
    fun_induction readStdioMessage input with
    | case1 input hl => exact absurd h (by simp)
    | case2 input hl => exact absurd h (by simp)
    | case3 input text next hl trimmed hblank ih => exact .blank hl hblank (ih h)
    | case4 => exact absurd h (by simp)
    | case5 input text headers hl trimmed hblank hheader err hlen =>
        rw [announcedLengthChecked_eq (not_not.1 hheader)] at hlen
        exact absurd hlen (by simp)
    | case6 input text headers hl trimmed hblank hheader len hlen err hskip =>
        rw [Except.error.inj h] at hskip
        exact absurd hskip (skipHeaders_ne_panic headers)
    | case7 => exact absurd h (by simp)
    | case8 input text headers hl trimmed hblank hheader len hlen content hskip =>
        rw [announcedLengthChecked_eq (not_not.1 hheader), Except.ok.injEq] at hlen
        subst hlen
        unfold readBody at h
        split at h
        · next hsize => exact .frame hl (not_not.1 hheader) (headersEnd_iff.1 hskip) hsize
        · split at h
          · exact absurd h (by simp)
          · exact absurd h (by simp)
  · intro h
    induction h with
    | blank hl hblank _ ih => rw [readStdioMessage_line hl, if_pos hblank, ih]
    | frame hl hheader hend hsize =>
        rw [readStdioMessage_header hl hheader hend, readBody, if_pos hsize]

/-! ## What a message takes -/

theorem takeLine_append_rest (input : Bytes) :
    (takeLine input).1 ++ (takeLine input).2 = input := by
  induction input with
  | nil => rfl
  | cons b bs ih =>
      rw [takeLine]
      by_cases hb : b = 10
      · rw [if_pos hb, List.singleton_append]
      · rw [if_neg hb, List.cons_append, ih]

theorem readLine_suffix {input rest : Bytes} {text : List Char}
    (h : readLine input = .line text rest) : rest <:+ input := by
  unfold readLine at h
  split at h
  · exact absurd h (by simp)
  · split at h
    · exact absurd h (by simp)
    · obtain ⟨-, rfl⟩ := LineRead.line.inj h
      exact ⟨_, takeLine_append_rest input⟩

theorem HeadersEnd.suffix {input rest : Bytes} (h : HeadersEnd input rest) : rest <:+ input := by
  induction h with
  | blank hl _ => exact readLine_suffix hl
  | header hl _ _ ih => exact ih.trans (readLine_suffix hl)

theorem NextMessage.suffix {input body rest : Bytes} (h : NextMessage input body rest) :
    rest <:+ input := by
  induction h with
  | blank hl _ _ ih => exact ih.trans (readLine_suffix hl)
  | raw hl _ _ => exact readLine_suffix hl
  | frame hl _ hend _ _ =>
      exact ((List.drop_suffix ..).trans hend.suffix).trans (readLine_suffix hl)

theorem NextMessage.rest_lt {input body rest : Bytes} (h : NextMessage input body rest) :
    rest.length < input.length := readStdioMessage_rest_lt (message_iff.2 h)

/-- A message takes bytes from the front of the input, at least one. -/
theorem NextMessage.takes {input body rest : Bytes} (h : NextMessage input body rest) :
    ∃ taken, taken ≠ [] ∧ input = taken ++ rest := by
  obtain ⟨taken, htaken⟩ := h.suffix
  refine ⟨taken, ?_, htaken.symm⟩
  rintro rfl
  exact absurd h.rest_lt (by rw [← htaken]; exact Nat.lt_irrefl _)

/-! ## Call after call -/

/-- One call gives a message and leaves this. -/
def ReadStep (input rest : Bytes) : Prop :=
  ∃ body, readStdioMessage input = .ok (some (body, rest))

/-- The input holds a message, and this after it. -/
def MessageStep (input rest : Bytes) : Prop := ∃ body, NextMessage input body rest

theorem readStep_iff {input rest : Bytes} : ReadStep input rest ↔ MessageStep input rest := by
  simp only [ReadStep, MessageStep, message_iff]

theorem readStep_eq_messageStep : ReadStep = MessageStep := by
  ext input rest
  exact readStep_iff

/-- Reading an input is total, over all the calls that can be made on it. -/
structure Total (input : Bytes) : Prop where
  /-- No call panics. -/
  returns : ∀ rest, ReflTransGen ReadStep input rest →
    readStdioMessage rest ≠ .error .panic
  /-- A message takes at least one byte from what is left. -/
  consumes : ∀ rest, ReflTransGen ReadStep input rest → ∀ body next,
    readStdioMessage rest = .ok (some (body, next)) →
      ∃ taken, taken ≠ [] ∧ rest = taken ++ next
  /-- After some calls there is one that gives no message, or an error. -/
  ends : ∃ rest, ReflTransGen ReadStep input rest ∧
    (readStdioMessage rest = .ok none ∨
      ∃ err, readStdioMessage rest = .error (.error err))

/-- No frame of the input is longer than a vector may be, as far as there are messages. -/
def Allocatable (input : Bytes) : Prop :=
  ∀ rest, ReflTransGen MessageStep input rest → ¬ Oversized rest

theorem Allocatable.next {input rest : Bytes} (h : Allocatable input)
    (hnext : MessageStep input rest) : Allocatable rest := by
  intro last hlast
  exact h last (.head hnext hlast)

/-- The calls come to an end. -/
theorem Allocatable.ends {input : Bytes} (h : Allocatable input) :
    ∃ rest, ReflTransGen ReadStep input rest ∧
      (readStdioMessage rest = .ok none ∨
        ∃ err, readStdioMessage rest = .error (.error err)) := by
  induction hn : input.length using Nat.strongRecOn generalizing input with
  | ind n ih =>
      rcases hread : readStdioMessage input with (err | _) | _ | ⟨body, next⟩
      · exact ⟨input, .refl, .inr ⟨err, hread⟩⟩
      · exact absurd (oversized_iff.1 hread) (h input .refl)
      · exact ⟨input, .refl, .inl hread⟩
      · have hmessage := message_iff.1 hread
        obtain ⟨last, hlast, hend⟩ :=
          ih next.length (hn ▸ hmessage.rest_lt) (h.next ⟨body, hmessage⟩) rfl
        exact ⟨last, .head (readStep_iff.2 ⟨body, hmessage⟩) hlast, hend⟩

/-- **Reading is total exactly on inputs without an oversized frame.**  Every call returns,
a message takes at least one byte, and the calls come to an end, if and only if no frame of
the input announces more than a vector may hold. -/
theorem stdio_total_iff (input : Bytes) : Total input ↔ Allocatable input := by
  constructor
  · intro h rest hrest hover
    rw [← readStep_eq_messageStep] at hrest
    exact h.returns rest hrest (oversized_iff.2 hover)
  · intro h
    refine ⟨?_, ?_, h.ends⟩
    · intro rest hrest hpanic
      rw [readStep_eq_messageStep] at hrest
      exact h rest hrest (oversized_iff.1 hpanic)
    · intro rest _ body next hread
      exact (message_iff.1 hread).takes

/-- A frame of `usize::MAX` bytes. -/
def hugeFrame : Bytes :=
  Utf8.encode ("content-length: 18446744073709551615\r".toList ++ ['\n']) ++
    Utf8.encode ['\r', '\n']

/-- Its header alone makes the reader panic. -/
theorem huge_frame_panics : readStdioMessage hugeFrame = .error .panic ∧
    ¬ Total hugeFrame := by
  have hl : readLine hugeFrame = .line ("content-length: 18446744073709551615\r".toList ++ ['\n'])
      (Utf8.encode ['\r', '\n']) := readLine_encode (by decide) _
  have hend : HeadersEnd (Utf8.encode ['\r', '\n']) [] :=
    .blank (@readLine_encode ['\r'] (by decide) []) (by decide)
  have hpanic : readStdioMessage hugeFrame = .error .panic :=
    oversized_iff.2 (.frame hl (by decide +kernel) hend (by decide +kernel))
  exact ⟨hpanic, fun h => h.returns hugeFrame .refl hpanic⟩

/-! ## The server -/

/-- On such an input the server does not panic either. -/
theorem runStdio_returns {σ : Type} {parse : Bytes → Option Value}
    {handle : σ → Value → σ × Except TransportError (Option Response)} {s : σ} {input : Bytes}
    (h : Allocatable input) : (runStdio parse handle s input).result ≠ .error .panic := by
  induction hn : input.length using Nat.strongRecOn generalizing s input with
  | ind n ih =>
      rw [runStdio_eq]
      rcases hread : readStdioMessage input with (err | _) | _ | ⟨body, next⟩
      · simp
      · exact absurd (oversized_iff.1 hread) (h input .refl)
      · simp
      · have hmessage := message_iff.1 hread
        have hnext : ∀ s, (runStdio parse handle s next).result ≠ .error .panic := fun s =>
          ih next.length (hn ▸ hmessage.rest_lt) (h.next ⟨body, hmessage⟩) rfl
        simp only
        split
        · exact hnext s
        · next msg _ =>
            rcases handle s msg with ⟨s', err | out | out⟩
            · simp
            · exact hnext s'
            · exact hnext s'

end Transport
end FolkAround
