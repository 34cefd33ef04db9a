import FolkAround.Lib.Parts
import FolkAround.Transport.Network
import FolkAround.Transport.ReadLoop

/-!
# Sessions do not see each other

The sessions of a manager are independent parts of it: what a message does, what is sent
for it and which payloads are decrypted and encrypted on the way depend on the session of
its sender and the secret identity, not on any other session.

* `Alike` — two managers a peer cannot tell apart.
* `handle_alike` — they handle its messages alike.
* `pass`, `separated_pass` — a frame that does not end the loop, with what came of it.
* `sessions_isolated` — the frames in another order, some senders cut short.
-/

namespace FolkAround
namespace Transport

variable {c : Crates}

/-! ## Sessions stay -/

theorem Grows.trans {m₁ m₂ m₃ : P2PManager c} (h : Grows m₁ m₂) (h' : Grows m₂ m₃) :
    Grows m₁ m₃ := by
  have hkey : sessionKey m₂ = sessionKey m₁ := by
    rw [h.same]
    rfl
  refine ⟨?_, fun p s hs => ?_, fun p s' hs' hnone => ?_⟩
  · rw [h'.same, h.same]
    rfl
  · obtain ⟨t, ht, htkey⟩ := h.kept p s hs
    obtain ⟨u, hu, hukey⟩ := h'.kept p t ht
    exact ⟨u, hu, hukey.trans htkey⟩
  · cases hmid : m₂.sessions.get p with
    | none => exact hkey ▸ h'.fresh p s' hs' hmid
    | some t =>
        obtain ⟨peerPublic, hparse, htkey⟩ := h.fresh p t hmid hnone
        obtain ⟨u, hu, hukey⟩ := h'.kept p t hmid
        rw [hs', Option.some.injEq] at hu
        exact ⟨peerPublic, hparse, by rw [htkey, hu, hukey]⟩

theorem Grows.relay (m : P2PManager c) (reply : Value → Except TransportError (Option String))
    (nonce : Nonce) (parsed : Value) :
    Grows m (handleRelay m reply nonce parsed).manager := by
  unfold handleRelay
  split
  · exact Grows.refl m
  · next sender _ =>
      split
      · exact Grows.refl m
      · next data _ =>
          have hdecrypt := Grows.decrypt m sender data
          split
          · exact Grows.refl m
          · simp only
            split
            · exact hdecrypt
            · split
              · exact hdecrypt
              · split
                · exact hdecrypt
                · exact hdecrypt
                · rw [sendReply_manager]
                  exact hdecrypt.trans (Grows.encrypt ..)

/-- **A message takes no session away.** -/
theorem Grows.signal (m : P2PManager c) (raw : String)
    (reply : Value → Except TransportError (Option String)) (nonce : Nonce) :
    Grows m (handleSignalMessage m raw reply nonce).manager := by
  simp only [handleSignalMessage]
  split
  · exact Grows.refl m
  · split
    · split <;> exact Grows.refl m
    · split
      · split <;> exact Grows.refl m
      · split
        · split
          · split
            · exact Grows.refl m
            · next h => exact Grows.establish h
          · exact Grows.refl m
        · split
          · split
            · split
              · exact Grows.refl m
              · next h => exact Grows.establish h
            · exact Grows.refl m
          · split
            · exact Grows.relay m reply nonce _
            · exact Grows.refl m

/-! ## Managers a peer cannot tell apart -/

/-- The same identity, and the same session with the peer, if it is anybody. -/
structure Alike (sender : Option String) (m n : P2PManager c) : Prop where
  secret : n.identitySecret = m.identitySecret
  session : ∀ p, sender = some p → n.sessions.get p = m.sessions.get p

variable {m n : P2PManager c} {sender : Option String} {peer : String}

theorem Alike.nobody (h : Alike sender m n) : Alike none m n where
  secret := h.secret
  session := by
    intro p hp
    cases hp

theorem Alike.identityPublic (h : Alike sender m n) : n.identityPublic = m.identityPublic := by
  rw [n.public_eq, m.public_eq, h.secret]

theorem Alike.identity (h : Alike sender m n) : n.identity = m.identity := by
  rw [P2PManager.identity, P2PManager.identity, h.identityPublic]

/-- The same session is set in both. -/
theorem Alike.set (h : Alike (some peer) m n) (s : Session) :
    Alike (some peer) (m.withSessions (m.sessions.set peer s))
      (n.withSessions (n.sessions.set peer s)) where
  secret := h.secret
  session := by
    rintro p hp
    obtain rfl := Option.some.inj hp
    rw [P2PManager.withSessions_sessions, P2PManager.withSessions_sessions, OrdMap.get_set_self,
      OrdMap.get_set_self]

/-- What two managers did is the same, as far as a peer is concerned. -/
structure Handled.Alike (sender : Option String) (h k : Handled c) : Prop where
  manager : Transport.Alike sender h.manager k.manager
  sent : k.sent = h.sent
  calls : k.calls = h.calls
  result : k.result = h.result

structure Done.Alike {α : Type} (sender : Option String) (d e : Done c α) : Prop where
  manager : Transport.Alike sender d.manager e.manager
  result : e.result = d.result
  cipher : e.cipher = d.cipher

/-! ## One message -/

theorem sessionKey_alike (h : Alike sender m n) (peerPublic : Key) :
    sessionKey n peerPublic = sessionKey m peerPublic := by
  rw [sessionKey, sessionKey, h.identityPublic, h.secret]

/-- A handshake ends alike in both. -/
theorem establish_alike (h : Alike (some peer) m n) :
    (∃ err, establishSession m peer = .error err ∧ establishSession n peer = .error err) ∨
      ∃ m' n', establishSession m peer = .ok m' ∧ establishSession n peer = .ok n' ∧
        Alike (some peer) m' n' := by
  simp only [establishSession, sessionKey_alike h, h.session peer rfl]
  cases parseIdentity c peer with
  | error err => exact .inl ⟨err, rfl, rfl⟩
  | ok peerPublic =>
      simp only
      cases sessionKey m peerPublic with
      | none => exact .inl ⟨.crypto, rfl, rfl⟩
      | some key =>
          cases m.sessions.get peer with
          | some s => exact .inr ⟨m, n, rfl, rfl, h⟩
          | none => exact .inr ⟨_, _, rfl, rfl, h.set _⟩

theorem decrypt_alike (h : Alike (some peer) m n) (data : Value) :
    Done.Alike (some peer) (decryptRelayData m peer data) (decryptRelayData n peer data) := by
  simp only [decryptRelayData, h.identity, h.session peer rfl]
  cases parseRelayData c data with
  | error err => exact ⟨h, rfl, rfl⟩
  | ok parsed =>
      obtain ⟨nonce, ciphertext⟩ := parsed
      cases m.sessions.get peer with
      | none => exact ⟨h, rfl, rfl⟩
      | some s =>
          simp only
          cases c.decryptInPlace s.key nonce (makeRelayAd peer m.identity) ciphertext with
          | none => exact ⟨h, rfl, rfl⟩
          | some buffer =>
              simp only
              split
              · exact ⟨h, rfl, rfl⟩
              · split
                · exact ⟨h, rfl, rfl⟩
                · split
                  · exact ⟨h.set _, rfl, rfl⟩
                  · exact ⟨h.set _, rfl, rfl⟩

theorem encrypt_alike (h : Alike (some peer) m n) (plaintext : Bytes) (nonce : Nonce) :
    Done.Alike (some peer) (encryptRelayPayload m peer plaintext nonce)
      (encryptRelayPayload n peer plaintext nonce) := by
  simp only [encryptRelayPayload, h.identity, h.session peer rfl]
  cases m.sessions.get peer with
  | none => exact ⟨h, rfl, rfl⟩
  | some s =>
      simp only
      split
      · exact ⟨h.set _, rfl, rfl⟩
      · exact ⟨h.set _, rfl, rfl⟩

theorem sendReply_alike (h : Alike (some peer) m n) (resp : String) (nonce : Nonce)
    (calls : List Call) :
    Handled.Alike (some peer) (sendReply m peer resp nonce calls)
      (sendReply n peer resp nonce calls) := by
  have he := encrypt_alike h (Utf8.encode resp.toList) nonce
  simp only [sendReply, he.result, he.cipher]
  split
  · exact ⟨he.manager, rfl, rfl, rfl⟩
  · refine ⟨he.manager, ?_, rfl, rfl⟩
    simp only [relayMessage, he.manager.identity]

theorem handleRelay_alike {parsed : Value} (h : Alike (senderOf parsed) m n)
    (reply : Value → Except TransportError (Option String)) (nonce : Nonce) :
    Handled.Alike (senderOf parsed) (handleRelay m reply nonce parsed)
      (handleRelay n reply nonce parsed) := by
  unfold handleRelay
  rw [senderOf] at h ⊢
  cases hsender : (parsed.get "from").bind Value.asStr with
  | none => exact ⟨h.nobody, rfl, rfl, rfl⟩
  | some sender =>
      rw [hsender] at h
      simp only [ensureRelaySender, h.session sender rfl]
      cases parsed.get "data" with
      | none => exact ⟨h, rfl, rfl, rfl⟩
      | some data =>
          have hd := decrypt_alike h data
          simp only [hd.result, hd.cipher]
          split
          · exact ⟨h, rfl, rfl, rfl⟩
          · split
            · exact ⟨hd.manager, rfl, rfl, rfl⟩
            · split
              · exact ⟨hd.manager, rfl, rfl, rfl⟩
              · split
                · exact ⟨hd.manager, rfl, rfl, rfl⟩
                · exact ⟨hd.manager, rfl, rfl, rfl⟩
                · exact sendReply_alike hd.manager _ _ _

/-- A handshake message is handled alike, whether it is answered or not. -/
theorem handshake_alike (h : Alike (some peer) m n) (answers : P2PManager c → List Value)
    (hanswers : ∀ {m' n' : P2PManager c}, Alike (some peer) m' n' → answers n' = answers m') :
    Handled.Alike (some peer)
      (match establishSession m peer with
        | .error err => ⟨m, [], [], .error err⟩
        | .ok m' => ⟨m', answers m', [], .ok ()⟩)
      (match establishSession n peer with
        | .error err => ⟨n, [], [], .error err⟩
        | .ok n' => ⟨n', answers n', [], .ok ()⟩) := by
  rcases establish_alike h with ⟨err, hm, hn⟩ | ⟨m', n', hm, hn, h'⟩
  · rw [hm, hn]
    exact ⟨h, rfl, rfl, rfl⟩
  · rw [hm, hn]
    exact ⟨h', hanswers h', rfl, rfl⟩

/-- **Managers their sender cannot tell apart handle a message alike**: they send the
same, use the cipher in the same way, end in the same way, and still look the same. -/
theorem handle_alike {raw : String} {parsed : Value} (hparsed : c.fromStr raw = some parsed)
    (h : Alike (senderOf parsed) m n) (reply : Value → Except TransportError (Option String))
    (nonce : Nonce) :
    Handled.Alike (senderOf parsed) (handleSignalMessage m raw reply nonce)
      (handleSignalMessage n raw reply nonce) := by
  have hoffer : offerMessage n = offerMessage m := by
    funext p
    rw [offerMessage, offerMessage, h.identity]
  unfold handleSignalMessage
  rw [hparsed]
  simp only [hoffer]
  split
  · split <;> exact ⟨h, rfl, rfl, rfl⟩
  · split
    · split <;> exact ⟨h, rfl, rfl, rfl⟩
    · split
      · rw [senderOf] at h ⊢
        cases hsender : (parsed.get "from").bind Value.asStr with
        | none => exact ⟨h.nobody, rfl, rfl, rfl⟩
        | some peer =>
            rw [hsender] at h
            apply handshake_alike h (fun m' => [answerMessage m' peer])
            intro m' n' h'
            simp only [answerMessage, h'.identity]
      · split
        · rw [senderOf] at h ⊢
          cases hsender : (parsed.get "from").bind Value.asStr with
          | none => exact ⟨h.nobody, rfl, rfl, rfl⟩
          | some peer =>
              rw [hsender] at h
              exact handshake_alike h (fun _ => []) (fun _ => rfl)
        · split
          · exact handleRelay_alike h reply nonce
          · exact ⟨h, rfl, rfl, rfl⟩

/-! ## Frames -/

/-- What came of a frame: the messages sent for it, and the uses of the two relay
functions. -/
structure Reaction where
  sent : List Value
  calls : List Call

/-- What the loop does with a frame apart from going on or not. -/
def reaction (m : P2PManager c) (a : Arrival) : Reaction :=
  match a.frame.message with
  | none => ⟨[], []⟩
  | some raw =>
    let handled := handleSignalMessage m raw a.reply a.nonce
    ⟨handled.sent, handled.calls⟩

/-- A frame past which the loop goes on, with what came of it. -/
def pass (m : P2PManager c) (a : Arrival) : Option (P2PManager c × Reaction) :=
  match onFrame (.waiting m) a with
  | .waiting m' => some (m', reaction m a)
  | .ended .. => none

theorem pass_eq_some {m' : P2PManager c} {a : Arrival} {o : Reaction} :
    pass m a = some (m', o) ↔ onFrame (.waiting m) a = .waiting m' ∧ o = reaction m a := by
  unfold pass
  split
  · next m₁ h => simp [h, eq_comm]
  · next h => simp [h]

/-- The loop goes on past frames exactly if they can be passed one after the other. -/
theorem run_eq_waiting_iff {m' : P2PManager c} {as : List Arrival} :
    Runs.run onFrame (.waiting m) as = .waiting m' ↔
      ∃ log, Parts.runWith pass m as = some (m', log) := by
  induction as generalizing m with
  | nil => simp [Parts.runWith, eq_comm]
  | cons a as ih =>
      rw [Runs.run_cons]
      cases hstep : onFrame (.waiting m) a with
      | waiting m₁ =>
          rw [ih]
          constructor
          · rintro ⟨log, hlog⟩
            exact ⟨_, Parts.runWith_cons.2 ⟨m₁, _, log, pass_eq_some.2 ⟨hstep, rfl⟩, hlog, rfl⟩⟩
          · rintro ⟨log, hlog⟩
            obtain ⟨m₂, o, rest, hpass, hrest, -⟩ := Parts.runWith_cons.1 hlog
            obtain ⟨hm₂, -⟩ := pass_eq_some.1 hpass
            obtain rfl := LoopState.waiting.inj (hstep.symm.trans hm₂)
            exact ⟨rest, hrest⟩
      | ended m₁ result =>
          have hkeep : ∀ s a, s = .ended m₁ result → onFrame s a = .ended m₁ result :=
            fun s _ hs => by rw [hs, onFrame]
          have hend : Runs.run onFrame (.ended m₁ result) as = .ended m₁ result :=
            Runs.run_invariant_of_forall onFrame hkeep rfl as
          rw [hend]
          constructor
          · exact fun h => absurd h (by simp)
          · rintro ⟨log, hlog⟩
            obtain ⟨m₂, o, rest, hpass, -, -⟩ := Parts.runWith_cons.1 hlog
            obtain ⟨hm₂, -⟩ := pass_eq_some.1 hpass
            exact absurd (hstep.symm.trans hm₂) (by simp)

/-- What a peer has to do with a manager: the identity and their session. -/
def peerView (sender : Option String) (m : P2PManager c) : Key × Option Session :=
  (m.identitySecret, sender.bind m.sessions.get)

theorem alike_iff : peerView sender n = peerView sender m ↔ Alike sender m n := by
  constructor
  · intro h
    obtain ⟨hsecret, hsession⟩ := Prod.mk.inj h
    refine ⟨hsecret, ?_⟩
    rintro p rfl
    exact hsession
  · rintro ⟨hsecret, hsession⟩
    cases sender with
    | none => exact Prod.ext hsecret rfl
    | some p => exact Prod.ext hsecret (hsession p rfl)

/-- What a frame may do to a manager, and who it says it is from. -/
theorem pass_cases {m' : P2PManager c} {a : Arrival} {o : Reaction} (h : pass m a = some (m', o)) :
    (a.frame.message = none ∧ a.sender c = none ∧ m' = m ∧ o = ⟨[], []⟩) ∨
      ∃ raw parsed, a.frame.message = some raw ∧ c.fromStr raw = some parsed ∧
        a.sender c = senderOf parsed ∧
        (handleSignalMessage m raw a.reply a.nonce).result = .ok () ∧
        m' = (handleSignalMessage m raw a.reply a.nonce).manager ∧
        o = ⟨(handleSignalMessage m raw a.reply a.nonce).sent,
          (handleSignalMessage m raw a.reply a.nonce).calls⟩ := by
  obtain ⟨hstep, rfl⟩ := pass_eq_some.1 h
  rw [onFrame_waiting] at hstep
  split at hstep
  · exact absurd hstep (by simp)
  · cases hraw : a.frame.message with
    | none =>
        rw [hraw] at hstep
        refine .inl ⟨rfl, ?_, (LoopState.waiting.inj hstep).symm, ?_⟩
        · rw [Arrival.sender, hraw]
          rfl
        · rw [reaction, hraw]
    | some raw =>
        rw [hraw] at hstep
        obtain ⟨hok, rfl⟩ := afterMessage_eq_waiting_iff.1 hstep
        obtain ⟨parsed, hparsed, -⟩ := handleSignalMessage_isOk_iff.1 hok
        refine .inr ⟨raw, parsed, rfl, hparsed, ?_, hok, rfl, ?_⟩
        · rw [Arrival.sender, hraw, Option.bind_some, hparsed]
          rfl
        · rw [reaction, hraw]

/-- **The sessions are separate parts of a manager.** -/
theorem separated_pass : Parts.Separated (pass (c := c)) (Arrival.sender c) peerView where
  own := by
    intro m n m' a o hview hpass
    have halike := alike_iff.1 hview
    obtain ⟨hstep, rfl⟩ := pass_eq_some.1 hpass
    rcases pass_cases hpass with ⟨hnone, -, rfl, ho⟩ | ⟨raw, parsed, hraw, hparsed, hsender, hok, rfl, -⟩
    · refine ⟨n, pass_eq_some.2 ⟨?_, ?_⟩, hview⟩
      · rw [onFrame_waiting, hnone] at hstep ⊢
        split
        · next hlast =>
            rw [if_pos hlast] at hstep
            exact absurd hstep (by simp)
        · rfl
      · rw [reaction, reaction, hnone]
    · rw [hsender] at halike
      have hhandled := handle_alike hparsed halike a.reply a.nonce
      refine ⟨(handleSignalMessage n raw a.reply a.nonce).manager, pass_eq_some.2 ⟨?_, ?_⟩, ?_⟩
      · rw [onFrame_waiting, hraw] at hstep ⊢
        split
        · next hlast =>
            rw [if_pos hlast] at hstep
            exact absurd hstep (by simp)
        · exact afterMessage_eq_waiting_iff.2 ⟨hhandled.result.trans hok, rfl⟩
      · rw [reaction, reaction, hraw]
        simp only [hhandled.sent, hhandled.calls]
      · rw [hsender]
        exact alike_iff.2 hhandled.manager
  frame := by
    intro m m' a o d hpass hd
    rcases pass_cases hpass with ⟨-, -, rfl, -⟩ | ⟨raw, parsed, -, hparsed, hsender, -, rfl, -⟩
    · rfl
    · apply alike_iff.2
      refine ⟨?_, ?_⟩
      · rw [(Grows.signal m raw a.reply a.nonce).same, P2PManager.withSessions_secret]
      · rintro p rfl
        exact others_unchanged m hparsed a.reply a.nonce p (hsender ▸ hd.symm)

/-! ## Runs of the loop -/

/-- The frames of one sender; `none` for those that are from nobody. -/
def framesOf (c : Crates) (sender : Option String) (as : List Arrival) : List Arrival :=
  Parts.actionsOf (Arrival.sender c) sender as

/-- What came of the frames of a run, one after the other. -/
def reactions : P2PManager c → List Arrival → List (Arrival × Reaction)
  | _, [] => []
  | m, a :: as => (a, reaction m a) ::
      match onFrame (.waiting m) a with
      | .waiting m' => reactions m' as
      | .ended .. => []

/-- What came of the frames of one sender. -/
def reactionsOf (sender : Option String) (m : P2PManager c) (as : List Arrival) :
    List (Arrival × Reaction) := Parts.outputsOf (Arrival.sender c) sender (reactions m as)

theorem reactions_eq {m' : P2PManager c} {as : List Arrival} {log : List (Arrival × Reaction)}
    (h : Parts.runWith pass m as = some (m', log)) : reactions m as = log := by
  induction as generalizing m log with
  | nil =>
      simp only [Parts.runWith, Option.some.injEq, Prod.mk.injEq] at h
      exact h.2
  | cons a as ih =>
      obtain ⟨m₁, o, rest, hpass, hrest, rfl⟩ := Parts.runWith_cons.1 h
      obtain ⟨hstep, rfl⟩ := pass_eq_some.1 hpass
      simp only [reactions, hstep, ih hrest]

/-- **Sessions do not see each other.**  If the loop goes on past the frames `as`, it goes
on past any other frames `bs` in which every sender has sent as much of the same, in the
same order, however the senders are interleaved.  What came of a sender's frames is the
same as far as they go, and a sender who sent them all has the same session. -/
theorem sessions_isolated {m m' : P2PManager c} {as bs : List Arrival}
    (has : Runs.run onFrame (.waiting m) as = .waiting m')
    (hbs : ∀ sender, framesOf c sender bs <+: framesOf c sender as) :
    ∃ n, Runs.run onFrame (.waiting m) bs = .waiting n ∧
      ∀ sender, reactionsOf sender m bs <+: reactionsOf sender m as ∧
        (framesOf c sender bs = framesOf c sender as →
          reactionsOf sender m bs = reactionsOf sender m as ∧
          ∀ peer, sender = some peer → n.sessions.get peer = m'.sessions.get peer) := by
  obtain ⟨log, hlog⟩ := run_eq_waiting_iff.1 has
  obtain ⟨n, log', hrun, hparts⟩ := separated_pass.rearrange hlog hbs
  refine ⟨n, run_eq_waiting_iff.2 ⟨log', hrun⟩, fun sender => ?_⟩
  obtain ⟨hpre, hall⟩ := hparts sender
  rw [reactionsOf, reactionsOf, reactions_eq hlog, reactions_eq hrun]
  refine ⟨hpre, fun heq => ?_⟩
  obtain ⟨hout, hview⟩ := hall heq
  exact ⟨hout, (alike_iff.1 hview).session⟩

/-! ## Two peers of a third manager -/

namespace Reference

/-- A manager that is neither of the two. -/
def third : P2PManager reference := .new reference (List.Vector.replicate 32 4)

def arrivalOf (v : Value) : Arrival := ⟨.text (text v), fun _ => .ok none, nonce⟩

/-- Whether the loop is still waiting for a frame. -/
def isWaiting : LoopState reference → Bool
  | .waiting _ => true
  | .ended .. => false

theorem exists_waiting {s : LoopState reference} (h : isWaiting s = true) : ∃ m, s = .waiting m := by
  cases s with
  | waiting m => exact ⟨m, rfl⟩
  | ended m result => exact absurd h (by simp [isWaiting])

theorem sender_offer : (arrivalOf offer).sender reference = some (hexEncode publicA.toList) := by
  decide +kernel

theorem sender_answer : (arrivalOf answer).sender reference = some (hexEncode publicB.toList) := by
  decide +kernel

end Reference

open Reference in
/-- An offer of one and an answer of another, the other way round. -/
theorem sessions_isolated_swapped :
    ∃ m n, Runs.run onFrame (.waiting third) [arrivalOf offer, arrivalOf answer] = .waiting m ∧
      Runs.run onFrame (.waiting third) [arrivalOf answer, arrivalOf offer] = .waiting n ∧
      ∀ peer, n.sessions.get peer = m.sessions.get peer := by
  obtain ⟨m, hm⟩ := exists_waiting (s := Runs.run onFrame (.waiting third)
    [arrivalOf offer, arrivalOf answer]) (by decide +kernel)
  have hne : hexEncode publicA.toList ≠ hexEncode publicB.toList := by decide +kernel
  have hframes : ∀ sender, framesOf reference sender [arrivalOf answer, arrivalOf offer] =
      framesOf reference sender [arrivalOf offer, arrivalOf answer] := by
    intro sender
    by_cases hA : some (hexEncode publicA.toList) = sender
    · subst hA
      simp [framesOf, Parts.actionsOf, sender_offer, sender_answer, hne.symm]
    · simp [framesOf, Parts.actionsOf, List.filter_cons, sender_offer, hA]
  have hbs : ∀ sender, framesOf reference sender [arrivalOf answer, arrivalOf offer] <+:
      framesOf reference sender [arrivalOf offer, arrivalOf answer] := by
    intro sender
    rw [hframes sender]
  obtain ⟨n, hn, hsame⟩ := sessions_isolated hm hbs
  exact ⟨m, n, hm, hn, fun peer => ((hsame (some peer)).2 (hframes _)).2 peer rfl⟩

end Transport
end FolkAround
