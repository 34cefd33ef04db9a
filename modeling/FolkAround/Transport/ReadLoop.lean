import FolkAround.Lib.Runs
import FolkAround.Transport.Reference

/-!
# The read loop of the room

The manager reads what the signalling server sends, one frame after the other, until
the connection is lost or closed, or until the handling of a message fails.

* `Frame`, `Arrival`, `onFrame` — the loop, as a machine that is waiting for a frame or
  has ended; what is sent gets through.
* `others_unchanged` — a message touches no session but that of its sender, however it
  ends.
* `Harmless` — the messages whose handling succeeds, said of the message and the
  sessions; `handleSignalMessage_isOk_iff` — they are these.
* `room_kept_iff` — the loop goes on past every frame of a run exactly if all its
  messages are harmless.
-/

namespace FolkAround
namespace Transport

variable {c : Crates}

/-! ## The loop -/

/-- What reading the socket gives. -/
inductive Frame where
  | text (raw : String)
  | binary (bytes : Bytes)
  | ping
  /-- Any other frame: a pong, or a part of a message. -/
  | other
  | close
  /-- The connection does not work any more. -/
  | lost

/-- A frame, with the answer the tools give to a request in it and the nonce drawn for
that answer. -/
structure Arrival where
  frame : Frame
  reply : Value → Except TransportError (Option String)
  nonce : Nonce

inductive LoopState (c : Crates) where
  | waiting (m : P2PManager c)
  | ended (m : P2PManager c) (result : Except TransportError Unit)

/-- An error of a message is an error of the loop. -/
def afterMessage (handled : Handled c) : LoopState c :=
  match handled.result with
  | .ok () => .waiting handled.manager
  | .error err => .ended handled.manager (.error err)

/-- The text a frame hands to the manager; bytes that are no UTF-8 are skipped. -/
def Frame.message : Frame → Option String
  | .text raw => some raw
  | .binary bytes => (Utf8.fromUtf8 bytes).map String.ofList
  | _ => none

/-- One round of `join_signal_room`. -/
def onFrame (s : LoopState c) (a : Arrival) : LoopState c :=
  match s with
  | .ended m result => .ended m result
  | .waiting m =>
    match a.frame with
    | .text raw => afterMessage (handleSignalMessage m raw a.reply a.nonce)
    | .binary bytes =>
      match Utf8.fromUtf8 bytes with
      | none => .waiting m
      | some text => afterMessage (handleSignalMessage m (String.ofList text) a.reply a.nonce)
    | .ping => .waiting m
    | .other => .waiting m
    | .close => .ended m (.ok ())
    | .lost => .ended m (.ok ())

/-- The frames after which nothing more can be read. -/
def Frame.isLast : Frame → Bool
  | .close => true
  | .lost => true
  | _ => false

/-- The loop takes a frame as the text in it, or leaves everything as it is. -/
theorem onFrame_waiting (m : P2PManager c) (a : Arrival) :
    onFrame (.waiting m) a =
      if a.frame.isLast then .ended m (.ok ())
      else
        match a.frame.message with
        | none => .waiting m
        | some raw => afterMessage (handleSignalMessage m raw a.reply a.nonce) := by
  cases a with
  | mk frame reply nonce =>
      cases frame with
      | binary bytes =>
          simp only [onFrame, Frame.message, Frame.isLast]
          cases Utf8.fromUtf8 bytes with
          | none => rfl
          | some text => rfl
      | _ => rfl

/-! ## What a message leaves alone -/

/-- Who a message says it is from. -/
def senderOf (parsed : Value) : Option String := (parsed.get "from").bind Value.asStr

/-- The sessions of everyone but one are the same. -/
def OthersUnchanged (m m' : P2PManager c) (sender : Option String) : Prop :=
  ∀ p, sender ≠ some p → m'.sessions.get p = m.sessions.get p

theorem OthersUnchanged.refl (m : P2PManager c) (sender : Option String) :
    OthersUnchanged m m sender := fun _ _ => rfl

theorem OthersUnchanged.trans {m₁ m₂ m₃ : P2PManager c} {sender : Option String}
    (h₁ : OthersUnchanged m₁ m₂ sender) (h₂ : OthersUnchanged m₂ m₃ sender) :
    OthersUnchanged m₁ m₃ sender := fun p hp => (h₂ p hp).trans (h₁ p hp)

/-- One session was set. -/
theorem OthersUnchanged.set (m : P2PManager c) (sender : String) (s : Session) :
    OthersUnchanged m (m.withSessions (m.sessions.set sender s)) (some sender) := by
  intro p hp
  have hne : ¬ sender = p := fun h => hp (congrArg some h)
  rw [P2PManager.withSessions_sessions, OrdMap.get_set, if_neg hne]

theorem othersUnchanged_establish {m m' : P2PManager c} {peer : String}
    (h : establishSession m peer = .ok m') : OthersUnchanged m m' (some peer) := by
  obtain ⟨peerPublic, key, -, -, -, hget⟩ := establishSession_ok h
  intro p hp
  rw [hget p, if_neg]
  rintro ⟨rfl, -⟩
  exact hp rfl

theorem othersUnchanged_decrypt (m : P2PManager c) (sender : String) (data : Value) :
    OthersUnchanged m (decryptRelayData m sender data).manager (some sender) := by
  rcases decryptRelayData_cases m sender data with ⟨hm, -⟩ | ⟨_, _, s, buffer, -, -, -, -, -, hd⟩
  · rw [hm]
    apply OthersUnchanged.refl
  · rw [hd]
    apply OthersUnchanged.set

theorem othersUnchanged_encrypt (m : P2PManager c) (peer : String) (plaintext : Bytes)
    (nonce : Nonce) :
    OthersUnchanged m (encryptRelayPayload m peer plaintext nonce).manager (some peer) := by
  rcases encryptRelayPayload_cases m peer plaintext nonce with ⟨-, he⟩ | ⟨s, _, -, -, he⟩
  · rw [he]
    apply OthersUnchanged.refl
  · rw [he]
    apply OthersUnchanged.set

theorem sendReply_manager (m : P2PManager c) (sender resp : String) (nonce : Nonce)
    (calls : List Call) : (sendReply m sender resp nonce calls).manager =
      (encryptRelayPayload m sender (Utf8.encode resp.toList) nonce).manager := by
  unfold sendReply
  simp only
  split
  · rfl
  · rfl

theorem othersUnchanged_relay (m : P2PManager c)
    (reply : Value → Except TransportError (Option String)) (nonce : Nonce) (parsed : Value) :
    OthersUnchanged m (handleRelay m reply nonce parsed).manager (senderOf parsed) := by
  unfold handleRelay senderOf
  split
  · apply OthersUnchanged.refl
  · next sender hsender =>
      rw [hsender]
      split
      · apply OthersUnchanged.refl
      · next data _ =>
          have hdecrypt := othersUnchanged_decrypt m sender data
          split
          · apply OthersUnchanged.refl
          · simp only
            split
            · exact hdecrypt
            · split
              · exact hdecrypt
              · split
                · exact hdecrypt
                · exact hdecrypt
                · rw [sendReply_manager]
                  apply hdecrypt.trans
                  apply othersUnchanged_encrypt

/-- **A message is the business of its sender.**  Whatever it is and however its
handling ends, no other session changes. -/
theorem others_unchanged (m : P2PManager c) {raw : String} {parsed : Value}
    (hparsed : c.fromStr raw = some parsed)
    (reply : Value → Except TransportError (Option String)) (nonce : Nonce) :
    OthersUnchanged m (handleSignalMessage m raw reply nonce).manager (senderOf parsed) := by
  unfold handleSignalMessage
  rw [hparsed]
  simp only
  split
  · split <;> apply OthersUnchanged.refl
  · split
    · split <;> apply OthersUnchanged.refl
    · split
      · split
        · next peer hpeer =>
            split
            · apply OthersUnchanged.refl
            · next m' hm' =>
                rw [senderOf, hpeer]
                exact othersUnchanged_establish hm'
        · apply OthersUnchanged.refl
      · split
        · split
          · next peer hpeer =>
              split
              · apply OthersUnchanged.refl
              · next m' hm' =>
                  rw [senderOf, hpeer]
                  exact othersUnchanged_establish hm'
          · apply OthersUnchanged.refl
        · split
          · apply othersUnchanged_relay
          · apply OthersUnchanged.refl

/-! ## The messages whose handling succeeds -/

/-- A peer the manager can agree on a key with. -/
def CanMeet (m : P2PManager c) (peer : String) : Prop :=
  ∃ peerPublic key, parseIdentity c peer = .ok peerPublic ∧ sessionKey m peerPublic = some key

theorem establishSession_isOk_iff (m : P2PManager c) (peer : String) :
    (∃ m', establishSession m peer = .ok m') ↔ CanMeet m peer := by
  constructor
  · rintro ⟨m', h⟩
    obtain ⟨peerPublic, key, hpeer, hkey, -⟩ := establishSession_ok h
    exact ⟨peerPublic, key, hpeer, hkey⟩
  · rintro ⟨peerPublic, key, hpeer, hkey⟩
    simp only [establishSession, hpeer, hkey]
    cases m.sessions.get peer with
    | some s => exact ⟨_, rfl⟩
    | none => exact ⟨_, rfl⟩

/-- The data of a relay is a new text of its sender's session `s`. -/
structure Opens (m : P2PManager c) (sender : String) (data : Value) (s : Session)
    (text : String) : Prop where
  session : m.sessions.get sender = some s
  opens : ∃ nonce ciphertext buffer chars, parseRelayData c data = .ok (nonce, ciphertext) ∧
    c.decryptInPlace s.key nonce (makeRelayAd sender m.identity) ciphertext = some buffer ∧
    8 ≤ buffer.length ∧ s.rxSeqno < fromBeBytes (buffer.take 8) ∧
    Utf8.fromUtf8 (buffer.drop 8) = some chars ∧ text = String.ofList chars

/-- What opens leaves the key and the next number of the session as they are. -/
theorem decryptRelayData_of_opens {m : P2PManager c} {sender text : String} {data : Value}
    {s : Session} (h : Opens m sender data s text) :
    (decryptRelayData m sender data).result = .ok text ∧
      ∃ seqno, (decryptRelayData m sender data).manager =
        m.withSessions (m.sessions.set sender { s with rxSeqno := seqno }) := by
  obtain ⟨hs, nonce, ciphertext, buffer, chars, hp, hd, hlen, hseq, hchars, rfl⟩ := h
  have hlong : ¬ buffer.length < 8 := not_lt.2 hlen
  have hnew : ¬ fromBeBytes (buffer.take 8) ≤ s.rxSeqno := UInt64.not_le.2 hseq
  have h : decryptRelayData m sender data =
      ⟨m.withSessions (m.sessions.set sender { s with rxSeqno := fromBeBytes (buffer.take 8) }),
        .ok (String.ofList chars),
        some ⟨s.key, nonce, makeRelayAd sender m.identity, ciphertext, some buffer⟩⟩ := by
    simp only [decryptRelayData, hp, hs, hd, hlong, hnew, hchars, if_false]
  rw [h]
  exact ⟨rfl, _, rfl⟩

theorem opens_of_decryptRelayData {m : P2PManager c} {sender text : String} {data : Value}
    (h : (decryptRelayData m sender data).result = .ok text) : ∃ s, Opens m sender data s text := by
  rcases decryptRelayData_cases m sender data with
    ⟨-, err, he⟩ | ⟨nonce, ciphertext, s, buffer, hp, hs, hd, hlen, hseq, hdone⟩
  · rw [he] at h
    exact absurd h (by simp)
  · rw [hdone] at h
    simp only at h
    cases hchars : Utf8.fromUtf8 (buffer.drop 8) with
    | none =>
        rw [hchars] at h
        exact absurd h (by simp)
    | some chars =>
        rw [hchars] at h
        exact ⟨s, hs, nonce, ciphertext, buffer, chars, hp, hd, hlen, hseq, hchars,
          (Except.ok.inj h).symm⟩

/-- An answer that can be sent in a session; none at all is one. -/
def CanAnswer (m : P2PManager c) (sender : String) (s : Session) (nonce : Nonce) :
    Except TransportError (Option String) → Prop
  | .error _ => False
  | .ok none => True
  | .ok (some resp) => (c.encryptInPlace s.key nonce (makeRelayAd m.identity sender)
      (toBeBytes s.txSeqno ++ Utf8.encode resp.toList)).isSome

theorem sendReply_isOk_iff {m : P2PManager c} {sender : String} {s : Session}
    (hs : m.sessions.get sender = some s) (resp : String) (nonce : Nonce) (calls : List Call) :
    (sendReply m sender resp nonce calls).result = .ok () ↔
      (c.encryptInPlace s.key nonce (makeRelayAd m.identity sender)
        (toBeBytes s.txSeqno ++ Utf8.encode resp.toList)).isSome := by
  unfold sendReply
  rcases encryptRelayPayload_cases m sender (Utf8.encode resp.toList) nonce with
    ⟨hnone, -⟩ | ⟨s', output, hs', houtput, he⟩
  · rw [hs] at hnone
    exact absurd hnone (by simp)
  · obtain rfl : s = s' := Option.some.inj (hs.symm.trans hs')
    simp only [he, ← houtput]
    cases output with
    | none => simp
    | some ciphertext => simp

/-- The session after a text was received in it. -/
theorem get_received (m : P2PManager c) (sender : String) (s : Session) (seqno : UInt64) :
    (m.withSessions (m.sessions.set sender { s with rxSeqno := seqno })).sessions.get sender =
      some { s with rxSeqno := seqno } := by
  rw [P2PManager.withSessions_sessions, OrdMap.get_set_self]

/-- A relay that is answered: it is from a peer with a session, it opens there to JSON,
and what the tools answer can be sent. -/
def Answerable (m : P2PManager c) (a : Arrival) (parsed : Value) : Prop :=
  ∃ sender data s text msg, senderOf parsed = some sender ∧ parsed.get "data" = some data ∧
    Opens m sender data s text ∧ c.fromStr text = some msg ∧ CanAnswer m sender s a.nonce (a.reply msg)

theorem handleRelay_of_answerable {m : P2PManager c} {a : Arrival} {parsed : Value}
    (h : Answerable m a parsed) : (handleRelay m a.reply a.nonce parsed).result = .ok () := by
  obtain ⟨sender, data, s, text, msg, hsender, hdata, hopens, hmsg, hanswer⟩ := h
  obtain ⟨hok, seqno, hm⟩ := decryptRelayData_of_opens hopens
  have hknown : ensureRelaySender m sender = .ok () := by
    rw [ensureRelaySender, hopens.session]
    rfl
  rw [senderOf] at hsender
  simp only [handleRelay, hsender, hdata, hknown, hok, hmsg]
  cases hreply : a.reply msg with
  | error err =>
      rw [hreply] at hanswer
      exact absurd hanswer id
  | ok answer =>
      rw [hreply] at hanswer
      cases answer with
      | none => rfl
      | some resp =>
          rw [hm]
          exact (sendReply_isOk_iff (get_received m sender s seqno) _ _ _).2 hanswer

theorem answerable_of_handleRelay {m : P2PManager c} {a : Arrival} {parsed : Value}
    (h : (handleRelay m a.reply a.nonce parsed).result = .ok ()) : Answerable m a parsed := by
  unfold handleRelay at h
  split at h
  · exact absurd h (by simp)
  · next sender hsender =>
      split at h
      · exact absurd h (by simp)
      · next data hdata =>
          split at h
          · exact absurd h (by simp)
          · simp only at h
            split at h
            · exact absurd h (by simp)
            · next text htext =>
                obtain ⟨s, hopens⟩ := opens_of_decryptRelayData htext
                obtain ⟨-, seqno, hm⟩ := decryptRelayData_of_opens hopens
                split at h
                · exact absurd h (by simp)
                · next msg hmsg =>
                    refine ⟨sender, data, s, text, msg, hsender, hdata, hopens, hmsg, ?_⟩
                    split at h
                    · exact absurd h (by simp)
                    · next hreply =>
                        rw [hreply]
                        trivial
                    · next resp hreply =>
                        rw [hm] at h
                        rw [hreply]
                        exact (sendReply_isOk_iff (get_received m sender s seqno) _ _ _).1 h

/-- The messages that do no harm: JSON; an offer or answer from a peer the manager can
agree on a key with, or from nobody; a relay that is answered. -/
def Harmless (m : P2PManager c) (a : Arrival) (raw : String) : Prop :=
  ∃ parsed, c.fromStr raw = some parsed ∧
    ∀ msgType, (parsed.get "type").bind Value.asStr = some msgType →
      (msgType = "offer" ∨ msgType = "answer" →
        ∀ peer, senderOf parsed = some peer → CanMeet m peer) ∧
      (msgType = "relay" → Answerable m a parsed)

/-- A handshake succeeds if the manager can meet its sender, if it has one. -/
theorem handleSignalMessage_handshake {m : P2PManager c} {a : Arrival} {raw msgType : String}
    {parsed : Value} (hparsed : c.fromStr raw = some parsed)
    (htype : (parsed.get "type").bind Value.asStr = some msgType)
    (hshake : msgType = "offer" ∨ msgType = "answer") :
    (handleSignalMessage m raw a.reply a.nonce).result = .ok () ↔
      ∀ peer, senderOf parsed = some peer → CanMeet m peer := by
  simp only [handleSignalMessage, hparsed, htype, Option.getD_some, senderOf]
  cases (parsed.get "from").bind Value.asStr with
  | none => rcases hshake with rfl | rfl <;> simp
  | some peer =>
      simp only [Option.some.injEq, forall_eq', ← establishSession_isOk_iff m peer]
      cases establishSession m peer with
      | error err => rcases hshake with rfl | rfl <;> simp
      | ok m' => rcases hshake with rfl | rfl <;> simp

/-- **Harmless messages succeed**, and no others do. -/
theorem handleSignalMessage_isOk_iff {m : P2PManager c} {a : Arrival} {raw : String} :
    (handleSignalMessage m raw a.reply a.nonce).result = .ok () ↔ Harmless m a raw := by
  unfold Harmless
  cases hparsed : c.fromStr raw with
  | none => simp [handleSignalMessage, hparsed]
  | some parsed =>
      simp only [Option.some.injEq, exists_eq_left']
      cases htype : (parsed.get "type").bind Value.asStr with
      | none => simp [handleSignalMessage, hparsed, htype]
      | some msgType =>
          simp only [Option.some.injEq, forall_eq']
          by_cases hshake : msgType = "offer" ∨ msgType = "answer"
          · have hrelay : msgType ≠ "relay" := by
              rintro rfl
              exact absurd hshake (by decide)
            rw [handleSignalMessage_handshake hparsed htype hshake]
            exact ⟨fun h => ⟨fun _ => h, fun hr => absurd hr hrelay⟩, fun h => h.1 hshake⟩
          · obtain ⟨hoffer, hanswer⟩ := not_or.1 hshake
            simp only [handleSignalMessage, hparsed, htype, Option.getD_some, if_neg hoffer,
              if_neg hanswer, hshake, false_implies, true_and]
            by_cases hrelay : msgType = "relay"
            · subst hrelay
              simp only [String.reduceEq, if_false, if_true, true_implies]
              exact ⟨answerable_of_handleRelay, handleRelay_of_answerable⟩
            · simp only [hrelay, if_false, false_implies, iff_true]
              split
              · cases (parsed.get "peers").bind Value.asArray <;> rfl
              · split
                · cases (parsed.get "identity").bind Value.asStr <;> rfl
                · rfl

/-! ## Runs of the loop -/

/-- Who a frame says it is from. -/
def Arrival.sender (c : Crates) (a : Arrival) : Option String :=
  (a.frame.message.bind c.fromStr).bind senderOf

/-- The loop goes on past every frame, up to one that is the last, and every frame
leaves the sessions of everyone but its sender as they were. -/
def Kept : P2PManager c → List Arrival → Prop
  | _, [] => True
  | m, a :: as => a.frame.isLast = true ∨
      ∃ m', onFrame (.waiting m) a = .waiting m' ∧ OthersUnchanged m m' (a.sender c) ∧ Kept m' as

/-- If there is a text in the frame, it is harmless; nothing is read after the end. -/
def FrameHarmless : LoopState c → Arrival → Prop
  | .ended .., _ => True
  | .waiting m, a => ∀ raw, a.frame.message = some raw → Harmless m a raw

theorem stepsMeet_ended (m : P2PManager c) (result : Except TransportError Unit)
    (as : List Arrival) : Runs.StepsMeet onFrame FrameHarmless (.ended m result) as := by
  induction as with
  | nil => trivial
  | cons a as ih => exact ⟨trivial, ih⟩

theorem message_of_isLast {f : Frame} (h : f.isLast = true) : f.message = none := by
  cases f with
  | close => rfl
  | lost => rfl
  | _ => exact absurd h (by simp [Frame.isLast])

theorem afterMessage_eq_waiting_iff {handled : Handled c} {m : P2PManager c} :
    afterMessage handled = .waiting m ↔ handled.result = .ok () ∧ handled.manager = m := by
  unfold afterMessage
  split
  · next h => simp [h]
  · next err h => simp [h]

/-- One frame that is not the last: the loop goes on exactly if it is harmless, and then
the others' sessions are unchanged. -/
theorem onFrame_waiting_iff {m : P2PManager c} {a : Arrival} (hlast : a.frame.isLast = false) :
    (∃ m', onFrame (.waiting m) a = .waiting m') ↔ FrameHarmless (.waiting m) a := by
  rw [onFrame_waiting, hlast, if_neg (by simp), FrameHarmless]
  cases a.frame.message with
  | none => simp
  | some raw => simp [afterMessage_eq_waiting_iff, handleSignalMessage_isOk_iff]

theorem onFrame_othersUnchanged {m m' : P2PManager c} {a : Arrival}
    (h : onFrame (.waiting m) a = .waiting m') : OthersUnchanged m m' (a.sender c) := by
  rw [onFrame_waiting] at h
  split at h
  · exact absurd h (by simp)
  · rw [Arrival.sender]
    cases hraw : a.frame.message with
    | none =>
        rw [hraw] at h
        obtain rfl := LoopState.waiting.inj h
        apply OthersUnchanged.refl
    | some raw =>
        rw [hraw] at h
        obtain ⟨hok, rfl⟩ := afterMessage_eq_waiting_iff.1 h
        obtain ⟨parsed, hparsed, -⟩ := handleSignalMessage_isOk_iff.1 hok
        rw [Option.bind_some, hparsed]
        exact others_unchanged m hparsed a.reply a.nonce

/-- **The room is kept** exactly if every text that arrives is harmless in the state in
which it arrives. -/
theorem room_kept_iff (m : P2PManager c) (as : List Arrival) :
    Kept m as ↔ Runs.StepsMeet onFrame FrameHarmless (.waiting m) as := by
  induction as generalizing m with
  | nil => exact Iff.rfl
  | cons a as ih =>
      rw [Kept, Runs.StepsMeet]
      cases hlast : a.frame.isLast with
      | true =>
          have hend : onFrame (.waiting m) a = .ended m (.ok ()) := by
            rw [onFrame_waiting, hlast, if_pos rfl]
          refine iff_of_true (.inl rfl) ⟨?_, ?_⟩
          · intro raw hraw
            rw [message_of_isLast hlast] at hraw
            exact absurd hraw (by simp)
          · rw [hend]
            apply stepsMeet_ended
      | false =>
          rw [← onFrame_waiting_iff hlast]
          constructor
          · rintro (hl | ⟨m', hm', -, hkept⟩)
            · exact absurd hl (by simp)
            · refine ⟨⟨m', hm'⟩, ?_⟩
              rw [hm']
              exact (ih m').1 hkept
          · rintro ⟨⟨m', hm'⟩, hrest⟩
            rw [hm'] at hrest
            exact .inr ⟨m', hm', onFrame_othersUnchanged hm', (ih m').2 hrest⟩

/-! ## A stranger in the room -/

namespace Reference

/-- The second manager relays to the first without a handshake. -/
def strangerRelay : Value :=
  relayMessage (.new withoutJson secretB) (hexEncode publicA.toList) (.object [])

/-- The reference crates with a JSON reader that knows this message. -/
def strangerCrates : Crates := { withoutJson with fromStr := readAmong [strangerRelay, offer] }

/-- The message as it arrives; there is no request in it for the tools to answer. -/
def strangerArrival : Arrival := ⟨.text (text strangerRelay), fun _ => .ok none, nonce⟩

end Reference

open Reference in
/-- One message of a stranger, and the first manager leaves the room. -/
theorem stranger_ends_loop :
    onFrame (.waiting (.new strangerCrates secretA)) strangerArrival =
        .ended (.new strangerCrates secretA) (.error .invalidPeerIdentity) ∧
      ¬ Kept (.new strangerCrates secretA) [strangerArrival] := by
  have hread : strangerCrates.fromStr (text strangerRelay) = some strangerRelay := by
    simp only [strangerCrates, readAmong_first]
  have hend : onFrame (.waiting (.new strangerCrates secretA)) strangerArrival =
      .ended (.new strangerCrates secretA) (.error .invalidPeerIdentity) := by
    have htype : (strangerRelay.get "type").bind Value.asStr = some "relay" := by
      simp [strangerRelay, relayMessage]
    have hfrom : (strangerRelay.get "from").bind Value.asStr =
        some (P2PManager.new withoutJson secretB).identity := by
      simp [strangerRelay, relayMessage, List.lookup_cons]
    have hdata : strangerRelay.get "data" = some (.object []) := by
      simp [strangerRelay, relayMessage, List.lookup_cons]
    have hnone : ∀ sender, ensureRelaySender (.new strangerCrates secretA) sender =
        .error .invalidPeerIdentity := fun _ => rfl
    simp [onFrame, strangerArrival, handleSignalMessage, hread, htype, handleRelay, hfrom, hdata,
      hnone, afterMessage]
  refine ⟨hend, ?_⟩
  rintro (hlast | ⟨m', hm', -⟩)
  · exact absurd hlast (by decide)
  · rw [hend] at hm'
    exact absurd hm' (by simp)

end Transport
end FolkAround
