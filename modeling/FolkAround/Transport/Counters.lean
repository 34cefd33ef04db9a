import FolkAround.Signal.Room
import FolkAround.Transport.Authenticity
import FolkAround.Transport.ReadLoop

/-!
# Sequence counters

A session counts what was received and what was sent in it.  Two things are asked: what
can move a counter, and whether a peer has one pair of them.

* `Authentic` — a payload that was made for a session; `decryption_counters` — nothing
  else moves the counter of received payloads, and how far it moves.
* `keyOf` — the public key a spelling stands for; digits of either case are accepted, and
  the maps of the room and of a manager compare spellings.
* `one_key_iff` — a room and a manager hold every key once exactly if none comes in under
  a second spelling.
-/

namespace FolkAround
namespace Transport

variable {c : Crates}

/-! ## Decryption -/

/-- A payload that authenticates in a session, with a sequence number in it. -/
structure Authentic (m : P2PManager c) (sender : String) (data : Value) (s : Session)
    (buffer : Bytes) : Prop where
  session : m.sessions.get sender = some s
  opens : ∃ nonce ciphertext, parseRelayData c data = .ok (nonce, ciphertext) ∧
    c.decryptInPlace s.key nonce (makeRelayAd sender m.identity) ciphertext = some buffer
  numbered : 8 ≤ buffer.length

/-- The manager after it has received up to a number in a session, and nothing else. -/
def P2PManager.received (m : P2PManager c) (sender : String) (s : Session) (seqno : UInt64) :
    P2PManager c := m.withSessions (m.sessions.set sender { s with rxSeqno := seqno })

theorem received_ne {m : P2PManager c} {sender : String} {s : Session} {seqno : UInt64}
    (hs : m.sessions.get sender = some s) (hnew : s.rxSeqno < seqno) :
    m.received sender s seqno ≠ m := by
  intro h
  have hget := get_received m sender s seqno
  rw [← P2PManager.received, h, hs] at hget
  have hsame : s.rxSeqno = seqno := congrArg Session.rxSeqno (Option.some.inj hget)
  rw [hsame] at hnew
  exact UInt64.lt_irrefl _ hnew

/-- Either the payload is authentic and its number new, or nothing changes. -/
theorem decryption_cases (m : P2PManager c) (sender : String) (data : Value) :
    (∃ s buffer, Authentic m sender data s buffer ∧ s.rxSeqno < seqnoOf buffer ∧
      (decryptRelayData m sender data).manager = m.received sender s (seqnoOf buffer) ∧
      (decryptRelayData m sender data).result =
        match Utf8.fromUtf8 (buffer.drop 8) with
        | none => .error .invalidEncryptedPayload
        | some text => .ok (String.ofList text)) ∨
    ((¬ ∃ s buffer, Authentic m sender data s buffer ∧ s.rxSeqno < seqnoOf buffer) ∧
      (decryptRelayData m sender data).manager = m ∧
      ∃ err, (decryptRelayData m sender data).result = .error err) := by
  by_cases hnew : ∃ s buffer, Authentic m sender data s buffer ∧ s.rxSeqno < seqnoOf buffer
  · obtain ⟨s, buffer, hauth, hnew⟩ := hnew
    obtain ⟨nonce, ciphertext, hparse, hopen⟩ := hauth.opens
    have hlong : ¬ buffer.length < 8 := not_lt.2 hauth.numbered
    have hfresh : ¬ fromBeBytes (buffer.take 8) ≤ s.rxSeqno := UInt64.not_le.2 hnew
    refine .inl ⟨s, buffer, hauth, hnew, ?_⟩
    simp only [decryptRelayData, hparse, hauth.session, hopen, hlong, hfresh, if_false]
    cases Utf8.fromUtf8 (buffer.drop 8) with
    | none => exact ⟨rfl, rfl⟩
    | some text => exact ⟨rfl, rfl⟩
  · rcases decryptRelayData_cases m sender data with
      ⟨hm, herr⟩ | ⟨nonce, ciphertext, s, buffer, hparse, hs, hopen, hlen, hfresh, -⟩
    · exact .inr ⟨hnew, hm, herr⟩
    · exact absurd ⟨s, buffer, ⟨hs, ⟨nonce, ciphertext, hparse, hopen⟩, hlen⟩, hfresh⟩ hnew

/-- **What moves a counter.**  A decryption that fails leaves the sessions as they are,
unless the payload is authentic, its number new and the rest of it no text; one that
succeeds has received an authentic payload with a new number.  Nothing else moves a
counter, and such a payload moves that of its session to its own number. -/
theorem decryption_counters (m : P2PManager c) (sender : String) (data : Value) :
    let done := decryptRelayData m sender data
    (∀ err, done.result = .error err →
      done.manager = m ∨ ∃ s buffer, Authentic m sender data s buffer ∧
        s.rxSeqno < seqnoOf buffer ∧ Utf8.fromUtf8 (buffer.drop 8) = none ∧
        done.manager = m.received sender s (seqnoOf buffer)) ∧
    (∀ text, done.result = .ok text →
      ∃ s buffer, Authentic m sender data s buffer ∧ s.rxSeqno < seqnoOf buffer ∧
        Utf8.fromUtf8 (buffer.drop 8) = some text.toList ∧
        done.manager = m.received sender s (seqnoOf buffer)) ∧
    (done.manager ≠ m ↔
      ∃ s buffer, Authentic m sender data s buffer ∧ s.rxSeqno < seqnoOf buffer) := by
  intro done
  rcases decryption_cases m sender data with
    ⟨s, buffer, hauth, hnew, hm, hresult⟩ | ⟨hnone, hm, err, herr⟩
  · have hmoved : done.manager ≠ m := by
      rw [hm]
      exact received_ne hauth.session hnew
    refine ⟨fun err herr => .inr ⟨s, buffer, hauth, hnew, ?_, hm⟩,
      fun text htext => ⟨s, buffer, hauth, hnew, ?_, hm⟩, fun _ => ⟨s, buffer, hauth, hnew⟩,
      fun _ => hmoved⟩
    · rw [hresult] at herr
      cases htext : Utf8.fromUtf8 (buffer.drop 8) with
      | none => rfl
      | some text =>
          rw [htext] at herr
          exact absurd herr (by simp)
    · rw [hresult] at htext
      cases hread : Utf8.fromUtf8 (buffer.drop 8) with
      | none =>
          rw [hread] at htext
          exact absurd htext (by simp)
      | some chars =>
          rw [hread] at htext
          rw [← Except.ok.inj htext, String.toList_ofList]
  · refine ⟨fun _ _ => .inl hm, fun text htext => ?_, fun hmoved => absurd hm hmoved,
      fun hauth => absurd hauth hnone⟩
    rw [herr] at htext
    exact absurd htext (by simp)

/-! ## One key, one peer -/

/-- The public key an identity spells. -/
def keyOf (c : Crates) (identity : String) : Option Key := (parseIdentity c identity).toOption

/-- No two peers of a room have the same public key. -/
def RoomOneKey {Ws : Type} (c : Crates) (w : Signal.World Ws) : Prop :=
  w.room.peers.DistinctBy fun x => keyOf c x.val

/-- No two sessions of a manager are with the same public key. -/
def OneKey (m : P2PManager c) : Prop := m.sessions.DistinctBy (keyOf c)

/-- An accepted join is not under a second spelling of a key that is in the room. -/
def JoinsOneKey {Ws : Type} [DecidableEq Ws] (c : Crates) (w : Signal.World Ws) :
    Signal.Action Ws → Prop
  | .message s env parsed => s ∉ w.closed →
      ∀ x, Signal.joinAccepted env s parsed w.room = some x →
        ∀ y key, y ∈ w.room.peers.keys → keyOf c x.val = some key → keyOf c y.val = some key → x = y
  | .close .. => True

/-! ### The room -/

section

variable {Ws : Type} [DecidableEq Ws]

theorem step_roomOneKey_iff {w : Signal.World Ws} (h : RoomOneKey c w) (a : Signal.Action Ws) :
    RoomOneKey c (Signal.step w a) ↔ JoinsOneKey c w a := by
  cases a with
  | message s env parsed =>
      by_cases hs : s ∈ w.closed
      · simp [Signal.step, JoinsOneKey, hs, h]
      · simp only [Signal.step, JoinsOneKey, hs, if_false, not_false_eq_true, forall_const]
        have hmaps := Signal.onMessage_maps env s parsed w.room
        cases hj : Signal.joinAccepted env s parsed w.room with
        | none =>
            rw [hj] at hmaps
            simp only [RoomOneKey, hmaps.1, reduceCtorEq, false_implies, implies_true, iff_true]
            exact h
        | some x =>
            rw [hj] at hmaps
            obtain ⟨j, hj⟩ := hmaps
            simp only [RoomOneKey, hj, Option.some.injEq, forall_eq']
            exact OrdMap.distinctBy_insert_iff h fun y => OrdMap.mem_keys_set
  | close s env =>
      refine iff_of_true ?_ trivial
      by_cases hs : s ∈ w.closed
      · simpa [Signal.step, hs] using h
      · simp only [Signal.step, hs, if_false]
        -- a close can only take an identity out of the room
        apply OrdMap.DistinctBy.mono h
        intro x hx
        rcases Signal.onClose_maps env s w.room with ⟨y, -, hp, -⟩ | ⟨-, hp, -⟩
        · rw [hp] at hx
          exact OrdMap.mem_of_mem_keys_delete hx
        · rwa [hp] at hx

end

/-! ### A manager -/

/-- A message, with the answer the tools give to a request in it and the nonce drawn for
that answer. -/
structure Message where
  raw : String
  reply : Value → Except TransportError (Option String)
  nonce : Nonce

/-- The manager after a message, whether its handling succeeds or not. -/
def receive (m : P2PManager c) (msg : Message) : P2PManager c :=
  (handleSignalMessage m msg.raw msg.reply msg.nonce).manager

/-- The peer with whom a message establishes a session. -/
def met (m : P2PManager c) (raw : String) : Option String := do
  let parsed ← c.fromStr raw
  let type ← (parsed.get "type").bind Value.asStr
  let peer ← senderOf parsed
  if (type = "offer" ∨ type = "answer") ∧ (establishSession m peer).isOk then some peer else none

/-- A session is not established under a second spelling of a key that has one. -/
def MeetsOneKey (m : P2PManager c) (msg : Message) : Prop :=
  ∀ peer, met m msg.raw = some peer →
    ∀ p key, p ∈ m.sessions.keys → keyOf c peer = some key → keyOf c p = some key → peer = p

/-- The same peers have a session. -/
def SamePeers (m m' : P2PManager c) : Prop := ∀ p, p ∈ m'.sessions.keys ↔ p ∈ m.sessions.keys

theorem SamePeers.refl (m : P2PManager c) : SamePeers m m := fun _ => Iff.rfl

theorem SamePeers.trans {m₁ m₂ m₃ : P2PManager c} (h₁ : SamePeers m₁ m₂) (h₂ : SamePeers m₂ m₃) :
    SamePeers m₁ m₃ := fun p => (h₂ p).trans (h₁ p)

theorem SamePeers.set {m : P2PManager c} {sender : String} {s t : Session}
    (hs : m.sessions.get sender = some s) :
    SamePeers m (m.withSessions (m.sessions.set sender t)) := by
  intro p
  rw [P2PManager.withSessions_sessions, OrdMap.mem_keys_set, or_iff_right_iff_imp]
  rintro rfl
  exact OrdMap.mem_keys_iff.2 ⟨s, hs⟩

theorem samePeers_decrypt (m : P2PManager c) (sender : String) (data : Value) :
    SamePeers m (decryptRelayData m sender data).manager := by
  rcases decryption_cases m sender data with ⟨s, buffer, hauth, -, hm, -⟩ | ⟨-, hm, -⟩
  · rw [hm]
    exact SamePeers.set hauth.session
  · rw [hm]
    exact SamePeers.refl m

theorem samePeers_encrypt (m : P2PManager c) (peer : String) (plaintext : Bytes) (nonce : Nonce) :
    SamePeers m (encryptRelayPayload m peer plaintext nonce).manager := by
  rcases encryptRelayPayload_cases m peer plaintext nonce with ⟨-, he⟩ | ⟨s, output, hs, -, he⟩
  · rw [he]
    exact SamePeers.refl m
  · rw [he]
    exact SamePeers.set hs

/-- A relay opens no session. -/
theorem samePeers_relay (m : P2PManager c)
    (reply : Value → Except TransportError (Option String)) (nonce : Nonce) (parsed : Value) :
    SamePeers m (handleRelay m reply nonce parsed).manager := by
  unfold handleRelay
  split
  · exact SamePeers.refl m
  · next sender _ =>
      split
      · exact SamePeers.refl m
      · next data _ =>
          have hdecrypt := samePeers_decrypt m sender data
          split
          · exact SamePeers.refl m
          · simp only
            split
            · exact hdecrypt
            · split
              · exact hdecrypt
              · split
                · exact hdecrypt
                · exact hdecrypt
                · rw [sendReply_manager]
                  exact hdecrypt.trans (samePeers_encrypt _ sender _ nonce)

/-- Establishing a session adds its peer to those that have one. -/
theorem mem_keys_establish {m m' : P2PManager c} {peer : String}
    (h : establishSession m peer = .ok m') (p : String) :
    p ∈ m'.sessions.keys ↔ p = peer ∨ p ∈ m.sessions.keys := by
  obtain ⟨peerPublic, key, -, -, -, hget⟩ := establishSession_ok h
  rw [OrdMap.mem_keys_iff, OrdMap.mem_keys_iff, hget p]
  by_cases hp : p = peer
  · cases hs : m.sessions.get p with
    | none => simp [hp]
    | some s => simp [hp]
  · simp [hp]

theorem receive_met {m : P2PManager c} {msg : Message} {peer : String}
    (h : met m msg.raw = some peer) : establishSession m peer = .ok (receive m msg) := by
  obtain ⟨parsed, hparsed, h⟩ := Option.bind_eq_some_iff.1 h
  obtain ⟨type, htype, h⟩ := Option.bind_eq_some_iff.1 h
  obtain ⟨peer', hpeer, h⟩ := Option.bind_eq_some_iff.1 h
  obtain ⟨⟨hhandshake, hok⟩, hsame⟩ := Option.ite_none_right_eq_some.1 h
  obtain rfl := Option.some.inj hsame
  cases hm : establishSession m peer' with
  | error err =>
      rw [hm] at hok
      exact absurd hok (by simp [Except.isOk, Except.toBool])
  | ok m' => rw [receive, handshake_manager hparsed htype hhandshake hpeer hm]

theorem receive_not_met {m : P2PManager c} {msg : Message} (h : met m msg.raw = none) :
    SamePeers m (receive m msg) := by
  have hrefuses : ∀ parsed type peer m', c.fromStr msg.raw = some parsed →
      ((parsed.get "type").bind Value.asStr).getD "" = type → type = "offer" ∨ type = "answer" →
      senderOf parsed = some peer → establishSession m peer ≠ .ok m' := by
    intro parsed type peer m' hparsed htype hhandshake hpeer hm
    cases hget : (parsed.get "type").bind Value.asStr with
    | none =>
        rw [hget, Option.getD_none] at htype
        subst htype
        exact absurd hhandshake (by decide)
    | some type' =>
        rw [hget, Option.getD_some] at htype
        subst htype
        simp only [met, hparsed, hget, hpeer, Option.bind_eq_bind, Option.bind_some, hm,
          hhandshake, true_and] at h
        exact absurd h (by simp [Except.isOk, Except.toBool])
  unfold receive handleSignalMessage
  split
  · exact SamePeers.refl m
  · next parsed hparsed =>
      simp only
      split
      · split <;> exact SamePeers.refl m
      · split
        · split <;> exact SamePeers.refl m
        · split
          · next htype =>
              split
              · next peer hpeer =>
                  split
                  · exact SamePeers.refl m
                  · next m' hm =>
                      exact absurd hm (hrefuses parsed _ peer m' hparsed htype (.inl rfl) hpeer)
              · exact SamePeers.refl m
          · split
            · next htype =>
                split
                · next peer hpeer =>
                    split
                    · exact SamePeers.refl m
                    · next m' hm =>
                        exact absurd hm (hrefuses parsed _ peer m' hparsed htype (.inr rfl) hpeer)
                · exact SamePeers.refl m
            · split
              · exact samePeers_relay m msg.reply msg.nonce parsed
              · exact SamePeers.refl m

theorem receive_oneKey_iff {m : P2PManager c} (h : OneKey m) (msg : Message) :
    OneKey (receive m msg) ↔ MeetsOneKey m msg := by
  unfold MeetsOneKey
  cases hmet : met m msg.raw with
  | none =>
      refine iff_of_true ?_ fun peer hpeer => absurd hpeer (by simp)
      exact OrdMap.DistinctBy.mono h fun p hp => (receive_not_met hmet p).1 hp
  | some peer =>
      simp only [Option.some.injEq, forall_eq']
      exact OrdMap.distinctBy_insert_iff h (mem_keys_establish (receive_met hmet))

/-! ### Runs -/

/-- **One key, one peer.**  After every prefix of a run of the room, its peers have
different public keys, exactly if no join is accepted under a second spelling of a key;
after every prefix of the messages that a manager receives, its sessions are with
different public keys, exactly if none is established under a second spelling. -/
theorem one_key_iff (c : Crates) (Ws : Type) [DecidableEq Ws] :
    (∀ as : List (Signal.Action Ws),
      (∀ bs, bs <+: as → RoomOneKey c (Runs.run Signal.step Signal.World.start bs)) ↔
        Runs.StepsMeet Signal.step (JoinsOneKey c) Signal.World.start as) ∧
    ∀ (secret : Key) (msgs : List Message),
      (∀ seen, seen <+: msgs → OneKey (Runs.run receive (.new c secret) seen)) ↔
        Runs.StepsMeet receive MeetsOneKey (.new c secret) msgs := by
  constructor
  · intro as
    have hstep (w : Signal.World Ws) (a : Signal.Action Ws) (h : RoomOneKey c w) :
        RoomOneKey c (Signal.step w a) ↔ JoinsOneKey c w a := step_roomOneKey_iff h a
    refine Runs.run_invariant_iff Signal.step hstep ?_
    intro x y key hx
    exact absurd hx (by simp [Signal.World.start, Signal.SignalRoom.new, OrdMap.keys, OrdMap.empty])
  · intro secret msgs
    have hstep (m : P2PManager c) (msg : Message) (h : OneKey m) :
        OneKey (receive m msg) ↔ MeetsOneKey m msg := receive_oneKey_iff h msg
    refine Runs.run_invariant_iff receive hstep ?_
    intro p q key hp
    exact absurd hp (by simp [P2PManager.new, OrdMap.keys, OrdMap.empty])

namespace Reference

/-- The identity `Signal.Sample.first` in capital letters. -/
def capitals : Signal.Identity := ⟨String.ofList (List.replicate 64 'A'), by decide +kernel⟩

/-- Two sockets join under the two spellings. -/
def spelledTwice : List (Signal.Action Nat) :=
  [Signal.Sample.join 1 Signal.Sample.first, Signal.Sample.join 2 capitals]

/-- An offer from an identity. -/
def offerFrom (x : Signal.Identity) : Value :=
  .object [("type", .string "offer"), ("from", .string x.val)]

/-- The reference crates with a JSON reader that knows the two offers. -/
def spellingCrates : Crates :=
  { withoutJson with fromStr := readAmong [offerFrom Signal.Sample.first, offerFrom capitals] }

def offersTwice : List Message :=
  [⟨text (offerFrom Signal.Sample.first), silent, nonce⟩, ⟨text (offerFrom capitals), silent, nonce⟩]

end Reference

open Reference in
/-- One key, spelled in small letters and in capitals, is two peers of the room, and two
sessions of a manager with counters of their own. -/
theorem one_key_two_peers :
    ¬ RoomOneKey spellingCrates (Runs.run Signal.step Signal.World.start spelledTwice) ∧
      ¬ OneKey (Runs.run receive (.new spellingCrates secretA) offersTwice) := by
  have hkey : keyOf spellingCrates Signal.Sample.first.val = keyOf spellingCrates capitals.val ∧
      (keyOf spellingCrates capitals.val).isSome = true := by decide +kernel
  obtain ⟨key, hcapitals⟩ := Option.isSome_iff_exists.1 hkey.2
  have hfirst := hkey.1.trans hcapitals
  constructor
  · intro h
    have hkeys : (Runs.run Signal.step Signal.World.start spelledTwice).room.peers.keys =
        [Signal.Sample.first, capitals] := by decide +kernel
    have hsame := h Signal.Sample.first capitals key (by simp [hkeys]) (by simp [hkeys]) hfirst
      hcapitals
    exact absurd hsame (by decide +kernel)
  · intro h
    have hkeys : (Runs.run receive (.new spellingCrates secretA) offersTwice).sessions.keys =
        [Signal.Sample.first.val, capitals.val] := by decide +kernel
    have hsame := h Signal.Sample.first.val capitals.val key (by simp [hkeys]) (by simp [hkeys])
      hfirst hcapitals
    exact absurd hsame (by decide +kernel)

end Transport
end FolkAround
