import Mathlib.Data.Vector.Basic
import Mathlib.Data.List.Lex
import FolkAround.Lib.OrdMap
import FolkAround.Json

/-!
# Peer to peer

The manager of the peer-to-peer relay: it answers the messages of the signalling
server, agrees on a key with every peer that offers or answers, and exchanges
encrypted requests with those peers.

* `Crates` — the cryptography, the hexadecimal digits and the JSON reader, which are
  other people's code; what is relied on are the four properties after it.
* `P2PManager` — the state; the public identity belongs to the secret one.
* `establishSession`, `encryptRelayPayload`, `decryptRelayData` — the three functions
  that touch a session.
* `handleSignalMessage` — a message of the server.  What it did with the two relay
  functions is kept as a list of `Call`s.

The lemmas at the end say what each of the three functions does to the sessions.
-/

namespace FolkAround
namespace Transport

abbrev Bytes := List UInt8

/-- `[u8; 32]` -/
abbrev Key := List.Vector UInt8 32

/-- `[u8; 24]` -/
abbrev Nonce := List.Vector UInt8 24

inductive TransportError where
  | io
  | json
  | webSocket
  | url
  | invalidSignalUrl
  | invalidPeerIdentity
  | handshakeRequired
  | invalidEncryptedPayload
  | crypto
  deriving DecidableEq, Repr

/-! ## The crates below -/

/-- What the manager takes from other crates. -/
structure Crates where
  x25519Public : Key → Key
  x25519Shared : Key → Key → Key
  /-- HKDF-SHA256 expanded to 32 bytes, from a salt, a secret and an info text. -/
  hkdf : Bytes → Key → Bytes → Option Key
  /-- XChaCha20-Poly1305, from a key, a nonce, the associated data and the buffer. -/
  encryptInPlace : Key → Nonce → Bytes → Bytes → Option Bytes
  decryptInPlace : Key → Nonce → Bytes → Bytes → Option Bytes
  hexEncode : Bytes → String
  hexDecode : String → Option Bytes
  /-- `serde_json::from_str` -/
  fromStr : String → Option Value

/-- Both sides of a key exchange arrive at the same secret. -/
def Crates.SharedComm (c : Crates) : Prop :=
  ∀ a b, c.x25519Shared a (c.x25519Public b) = c.x25519Shared b (c.x25519Public a)

/-- Decryption undoes encryption under the same key, nonce and associated data. -/
def Crates.DecryptsEncrypted (c : Crates) : Prop :=
  ∀ key nonce ad buffer ciphertext, c.encryptInPlace key nonce ad buffer = some ciphertext →
    c.decryptInPlace key nonce ad ciphertext = some buffer

/-- Hexadecimal digits are read back. -/
def Crates.HexRoundTrip (c : Crates) : Prop := ∀ bytes, c.hexDecode (c.hexEncode bytes) = some bytes

/-- There are two digits to a byte. -/
def Crates.HexTwoDigits (c : Crates) : Prop :=
  ∀ bytes, (c.hexEncode bytes).toList.length = 2 * bytes.length

/-! ## Sequence numbers -/

/-- `u64::to_be_bytes` -/
def toBeBytes (n : UInt64) : Bytes :=
  [7, 6, 5, 4, 3, 2, 1, 0].map fun k => UInt8.ofNat (n.toNat / 256 ^ k)

/-- `u64::from_be_bytes` -/
def fromBeBytes (bytes : Bytes) : UInt64 :=
  UInt64.ofNat (bytes.foldl (fun acc b => acc * 256 + b.toNat) 0)

@[simp] theorem length_toBeBytes (n : UInt64) : (toBeBytes n).length = 8 := rfl

theorem fromBeBytes_toBeBytes (n : UInt64) : fromBeBytes (toBeBytes n) = n := by
  have hn : n.toNat < 2 ^ 64 := n.toNat_lt
  have hstep : ∀ k, n.toNat / 256 ^ (k + 1) * 256 + n.toNat / 256 ^ k % 256 = n.toNat / 256 ^ k := by
    intro k
    rw [Nat.pow_succ, ← Nat.div_div_eq_div_mul]
    exact Nat.div_add_mod' ..
  have hfirst : 0 * 256 + n.toNat / 256 ^ 7 % 256 = n.toNat / 256 ^ 7 := by
    have htop : n.toNat / 256 ^ (7 + 1) = 0 := Nat.div_eq_of_lt hn
    exact htop ▸ hstep 7
  have hbyte : ∀ k, (UInt8.ofNat (n.toNat / 256 ^ k)).toNat = n.toNat / 256 ^ k % 256 := fun k =>
    UInt8.toNat_ofNat'
  apply UInt64.toNat_inj.1
  rw [fromBeBytes, toBeBytes, UInt64.toNat_ofNat']
  simp only [List.map_cons, List.map_nil, List.foldl_cons, List.foldl_nil, hbyte]
  rw [hfirst, hstep 6, hstep 5, hstep 4, hstep 3, hstep 2, hstep 1, hstep 0, Nat.pow_zero,
    Nat.div_one]
  exact Nat.mod_eq_of_lt hn

/-! ## The manager -/

structure Session where
  key : Key
  rxSeqno : UInt64
  txSeqno : UInt64
  deriving DecidableEq

structure P2PManager (c : Crates) where
  identityPublic : Key
  identitySecret : Key
  sessions : OrdMap String Session
  /-- The public identity is that of the secret. -/
  public_eq : identityPublic = c.x25519Public identitySecret

variable {c : Crates}

namespace P2PManager

/-- A manager as it starts, with the secret that was drawn for it. -/
def new (c : Crates) (secret : Key) : P2PManager c :=
  ⟨c.x25519Public secret, secret, .empty, rfl⟩

/-- The identity the manager goes by, in hexadecimal digits. -/
def identity (m : P2PManager c) : String := c.hexEncode m.identityPublic.toList

/-- The manager with other sessions. -/
def withSessions (m : P2PManager c) (sessions : OrdMap String Session) : P2PManager c :=
  { m with sessions := sessions }

@[simp] theorem withSessions_sessions (m : P2PManager c) (sessions : OrdMap String Session) :
    (m.withSessions sessions).sessions = sessions := rfl

@[simp] theorem withSessions_secret (m : P2PManager c) (sessions : OrdMap String Session) :
    (m.withSessions sessions).identitySecret = m.identitySecret := rfl

@[simp] theorem withSessions_identity (m : P2PManager c) (sessions : OrdMap String Session) :
    (m.withSessions sessions).identity = m.identity := rfl

end P2PManager

/-! ## The handshake -/

def relayKdfInfo : Bytes := Utf8.encode "folk-around p2p relay v1".toList

def parseIdentity (c : Crates) (hexValue : String) : Except TransportError Key :=
  match c.hexDecode hexValue with
  | none => .error .invalidPeerIdentity
  | some bytes => if h : bytes.length = 32 then .ok ⟨bytes, h⟩ else .error .invalidPeerIdentity

/-- The order of arrays of bytes. -/
def keyLt (a b : Key) : Bool := decide (a.toList.map UInt8.toNat < b.toList.map UInt8.toNat)

/-- The salt of a session: the smaller public identity first. -/
def sessionSalt (own peer : Key) : Bytes :=
  if keyLt own peer then own.toList ++ peer.toList else peer.toList ++ own.toList

/-- The key a manager derives for a peer. -/
def sessionKey (m : P2PManager c) (peerPublic : Key) : Option Key :=
  c.hkdf (sessionSalt m.identityPublic peerPublic)
    (c.x25519Shared m.identitySecret peerPublic) relayKdfInfo

/-- Derive the key for a peer and keep it, unless there is a session already. -/
def establishSession (m : P2PManager c) (peer : String) : Except TransportError (P2PManager c) :=
  match parseIdentity c peer with
  | .error err => .error err
  | .ok peerPublic =>
    match sessionKey m peerPublic with
    | none => .error .crypto
    | some key =>
      match m.sessions.get peer with
      | some _ => .ok m
      | none => .ok (m.withSessions (m.sessions.set peer ⟨key, 0, 0⟩))

/-! ## Relayed payloads -/

/-- The associated data: who sends, and to whom. -/
def makeRelayAd (sender target : String) : Bytes :=
  Utf8.encode "folk-around p2p relay\nfrom=".toList ++ Utf8.encode sender.toList ++
    Utf8.encode "\nto=".toList ++ Utf8.encode target.toList

/-- One use of the cipher: what went in and what came out. -/
structure CipherUse where
  key : Key
  nonce : Nonce
  ad : Bytes
  input : Bytes
  output : Option Bytes
  deriving DecidableEq

/-- What a relay function leaves behind: the manager, the result, and the use it made
of the cipher if it came that far. -/
structure Done (c : Crates) (α : Type) where
  manager : P2PManager c
  result : Except TransportError α
  cipher : Option CipherUse

/-- The JSON object around a nonce and a ciphertext. -/
def relayObject (c : Crates) (nonce : Nonce) (ciphertext : Bytes) : Value :=
  .object [("v", .number (.posInt 1)), ("alg", .string "xchacha20poly1305"),
    ("nonce", .string (c.hexEncode nonce.toList)),
    ("ciphertext", .string (c.hexEncode ciphertext))]

/-- Encrypt a payload for a peer under a nonce that was drawn for it.  The sequence
number is used up whether the cipher succeeds or not. -/
def encryptRelayPayload (m : P2PManager c) (peer : String) (plaintext : Bytes) (nonce : Nonce) :
    Done c Value :=
  match m.sessions.get peer with
  | none => ⟨m, .error .handshakeRequired, none⟩
  | some session =>
    let seqno := session.txSeqno
    let m' := m.withSessions (m.sessions.set peer { session with txSeqno := seqno + 1 })
    let buffer := toBeBytes seqno ++ plaintext
    let ad := makeRelayAd m.identity peer
    match c.encryptInPlace session.key nonce ad buffer with
    | none => ⟨m', .error .crypto, some ⟨session.key, nonce, ad, buffer, none⟩⟩
    | some ciphertext =>
      ⟨m', .ok (relayObject c nonce ciphertext),
        some ⟨session.key, nonce, ad, buffer, some ciphertext⟩⟩

/-- A member of an object that holds hexadecimal digits. -/
def hexMember (c : Crates) (encrypted : Value) (key : String) : Except TransportError Bytes :=
  match (encrypted.get key).bind Value.asStr with
  | none => .error .invalidEncryptedPayload
  | some text =>
    match c.hexDecode text with
    | none => .error .invalidEncryptedPayload
    | some bytes => .ok bytes

/-- The checks on the object, up to the nonce and the ciphertext in it. -/
def parseEncrypted (c : Crates) (encrypted : Value) : Except TransportError (Nonce × Bytes) :=
  if (encrypted.get "v").bind Value.asI64 ≠ some 1 then .error .invalidEncryptedPayload
  else if (encrypted.get "alg").bind Value.asStr ≠ some "xchacha20poly1305" then
    .error .invalidEncryptedPayload
  else
    match hexMember c encrypted "nonce" with
    | .error err => .error err
    | .ok nonce =>
      match hexMember c encrypted "ciphertext" with
      | .error err => .error err
      | .ok ciphertext =>
        if h : nonce.length = 24 then .ok (⟨nonce, h⟩, ciphertext)
        else .error .invalidEncryptedPayload

/-- The data of a relay is the object itself or its text. -/
def parseRelayData (c : Crates) (data : Value) : Except TransportError (Nonce × Bytes) :=
  match data.asStr with
  | some text =>
    match c.fromStr text with
    | none => .error .json
    | some encrypted => parseEncrypted c encrypted
  | none => parseEncrypted c data

/-- Decrypt what came from a peer and check its sequence number. -/
def decryptRelayData (m : P2PManager c) (sender : String) (data : Value) : Done c String :=
  match parseRelayData c data with
  | .error err => ⟨m, .error err, none⟩
  | .ok (nonce, ciphertext) =>
    match m.sessions.get sender with
    | none => ⟨m, .error .handshakeRequired, none⟩
    | some session =>
      let ad := makeRelayAd sender m.identity
      let output := c.decryptInPlace session.key nonce ad ciphertext
      let cipher := some ⟨session.key, nonce, ad, ciphertext, output⟩
      match output with
      | none => ⟨m, .error .crypto, cipher⟩
      | some buffer =>
        if buffer.length < 8 then ⟨m, .error .invalidEncryptedPayload, cipher⟩
        else
          let seqno := fromBeBytes (buffer.take 8)
          if seqno ≤ session.rxSeqno then ⟨m, .error .invalidEncryptedPayload, cipher⟩
          else
            let m' := m.withSessions (m.sessions.set sender { session with rxSeqno := seqno })
            -- the number counts as received even if the rest is no text
            match Utf8.fromUtf8 (buffer.drop 8) with
            | none => ⟨m', .error .invalidEncryptedPayload, cipher⟩
            | some text => ⟨m', .ok (String.ofList text), cipher⟩

/-! ## Messages of the signalling server -/

/-- A call of one of the two relay functions. -/
inductive Call where
  | encrypt (peer : String) (plaintext : Bytes) (result : Except TransportError Value)
      (cipher : Option CipherUse)
  | decrypt (sender : String) (data : Value) (result : Except TransportError String)
      (cipher : Option CipherUse)

/-- A message that was handled: the manager after it, what it sent, which relay
functions it called, and how it ended. -/
structure Handled (c : Crates) where
  manager : P2PManager c
  sent : List Value
  calls : List Call
  result : Except TransportError Unit

def offerMessage (m : P2PManager c) (peer : String) : Value :=
  .object [("type", .string "offer"), ("from", .string m.identity), ("to", .string peer),
    ("data", .object [("type", .string "mcp_relay")])]

def answerMessage (m : P2PManager c) (peer : String) : Value :=
  .object [("type", .string "answer"), ("from", .string m.identity), ("to", .string peer),
    ("data", .object [("type", .string "mcp_relay"), ("accepted", .bool true)])]

def relayMessage (m : P2PManager c) (peer : String) (encrypted : Value) : Value :=
  .object [("type", .string "relay"), ("from", .string m.identity), ("to", .string peer),
    ("data", encrypted)]

def ensureRelaySender (m : P2PManager c) (sender : String) : Except TransportError Unit :=
  if (m.sessions.get sender).isSome then .ok () else .error .invalidPeerIdentity

/-- The answer to a decrypted request, encrypted for the peer it came from. -/
def sendReply (m : P2PManager c) (sender : String) (resp : String) (nonce : Nonce)
    (calls : List Call) : Handled c :=
  let plaintext := Utf8.encode resp.toList
  let done := encryptRelayPayload m sender plaintext nonce
  let calls := calls ++ [.encrypt sender plaintext done.result done.cipher]
  match done.result with
  | .error err => ⟨done.manager, [], calls, .error err⟩
  | .ok encrypted => ⟨done.manager, [relayMessage done.manager sender encrypted], calls, .ok ()⟩

/-- A relayed request.  `reply` is what the server of the tools answers. -/
def handleRelay (m : P2PManager c) (reply : Value → Except TransportError (Option String))
    (nonce : Nonce) (parsed : Value) : Handled c :=
  match (parsed.get "from").bind Value.asStr with
  | none => ⟨m, [], [], .error .invalidPeerIdentity⟩
  | some sender =>
    match parsed.get "data" with
    | none => ⟨m, [], [], .error .invalidEncryptedPayload⟩
    | some data =>
      match ensureRelaySender m sender with
      | .error err => ⟨m, [], [], .error err⟩
      | .ok () =>
        let done := decryptRelayData m sender data
        let calls := [.decrypt sender data done.result done.cipher]
        match done.result with
        | .error err => ⟨done.manager, [], calls, .error err⟩
        | .ok mcpJson =>
          match c.fromStr mcpJson with
          | none => ⟨done.manager, [], calls, .error .json⟩
          | some msg =>
            match reply msg with
            | .error err => ⟨done.manager, [], calls, .error err⟩
            | .ok none => ⟨done.manager, [], calls, .ok ()⟩
            | .ok (some resp) => sendReply done.manager sender resp nonce calls

/-- A text from the signalling server. -/
def handleSignalMessage (m : P2PManager c) (raw : String)
    (reply : Value → Except TransportError (Option String)) (nonce : Nonce) : Handled c :=
  match c.fromStr raw with
  | none => ⟨m, [], [], .error .json⟩
  | some parsed =>
    let msgType := ((parsed.get "type").bind Value.asStr).getD ""
    if msgType = "joined" then
      match (parsed.get "peers").bind Value.asArray with
      | some peers => ⟨m, (peers.filterMap Value.asStr).map (offerMessage m), [], .ok ()⟩
      | none => ⟨m, [], [], .ok ()⟩
    else if msgType = "peer_joined" then
      match (parsed.get "identity").bind Value.asStr with
      | some peer => ⟨m, [offerMessage m peer], [], .ok ()⟩
      | none => ⟨m, [], [], .ok ()⟩
    else if msgType = "offer" then
      match (parsed.get "from").bind Value.asStr with
      | some peer =>
        match establishSession m peer with
        | .error err => ⟨m, [], [], .error err⟩
        | .ok m' => ⟨m', [answerMessage m' peer], [], .ok ()⟩
      | none => ⟨m, [], [], .ok ()⟩
    else if msgType = "answer" then
      match (parsed.get "from").bind Value.asStr with
      | some peer =>
        match establishSession m peer with
        | .error err => ⟨m, [], [], .error err⟩
        | .ok m' => ⟨m', [], [], .ok ()⟩
      | none => ⟨m, [], [], .ok ()⟩
    else if msgType = "relay" then handleRelay m reply nonce parsed
    else ⟨m, [], [], .ok ()⟩

/-! ## What the three functions do to the sessions -/

/-- A handshake adds the derived session where there is none, and nothing else. -/
theorem establishSession_ok {m m' : P2PManager c} {peer : String}
    (h : establishSession m peer = .ok m') :
    ∃ peerPublic key, parseIdentity c peer = .ok peerPublic ∧ sessionKey m peerPublic = some key ∧
      m' = m.withSessions m'.sessions ∧ ∀ p, m'.sessions.get p =
        if p = peer ∧ m.sessions.get p = none then some ⟨key, 0, 0⟩ else m.sessions.get p := by
  unfold establishSession at h
  cases hp : parseIdentity c peer with
  | error err => rw [hp] at h; exact absurd h (by simp)
  | ok peerPublic =>
      rw [hp] at h
      simp only at h
      cases hk : sessionKey m peerPublic with
      | none => rw [hk] at h; exact absurd h (by simp)
      | some key =>
          rw [hk] at h
          refine ⟨peerPublic, key, rfl, hk, ?_⟩
          cases hs : m.sessions.get peer with
          | some session =>
              simp only [hs, Except.ok.injEq] at h
              subst h
              refine ⟨rfl, fun p => ?_⟩
              rw [if_neg]
              rintro ⟨rfl, hnone⟩
              rw [hs] at hnone
              exact absurd hnone (by simp)
          | none =>
              simp only [hs, Except.ok.injEq] at h
              subst h
              refine ⟨rfl, fun p => ?_⟩
              rw [P2PManager.withSessions_sessions, OrdMap.get_set]
              by_cases hpp : peer = p
              · subst hpp
                simp [hs]
              · simp [hpp, Ne.symm hpp]

/-- An encryption without a session does nothing; one with a session uses up its
sequence number and is one use of the cipher. -/
theorem encryptRelayPayload_cases (m : P2PManager c) (peer : String) (plaintext : Bytes)
    (nonce : Nonce) :
    (m.sessions.get peer = none ∧
      encryptRelayPayload m peer plaintext nonce = ⟨m, .error .handshakeRequired, none⟩) ∨
    ∃ s output, m.sessions.get peer = some s ∧
      output = c.encryptInPlace s.key nonce (makeRelayAd m.identity peer)
        (toBeBytes s.txSeqno ++ plaintext) ∧
      encryptRelayPayload m peer plaintext nonce =
        ⟨m.withSessions (m.sessions.set peer { s with txSeqno := s.txSeqno + 1 }),
          match output with
          | none => .error .crypto
          | some ciphertext => .ok (relayObject c nonce ciphertext),
          some ⟨s.key, nonce, makeRelayAd m.identity peer, toBeBytes s.txSeqno ++ plaintext,
            output⟩⟩ := by
  unfold encryptRelayPayload
  cases hs : m.sessions.get peer with
  | none => exact .inl ⟨rfl, rfl⟩
  | some s =>
      refine .inr ⟨s, _, rfl, rfl, ?_⟩
      simp only
      split
      · next h => rw [h]
      · next h => rw [h]

/-- A decryption changes nothing, or it received a higher sequence number than the
session had seen. -/
theorem decryptRelayData_cases (m : P2PManager c) (sender : String) (data : Value) :
    ((decryptRelayData m sender data).manager = m ∧
      ∃ err, (decryptRelayData m sender data).result = .error err) ∨
    ∃ nonce ciphertext s buffer, parseRelayData c data = .ok (nonce, ciphertext) ∧
      m.sessions.get sender = some s ∧
      c.decryptInPlace s.key nonce (makeRelayAd sender m.identity) ciphertext = some buffer ∧
      8 ≤ buffer.length ∧ s.rxSeqno < fromBeBytes (buffer.take 8) ∧
      decryptRelayData m sender data =
        ⟨m.withSessions (m.sessions.set sender
            { s with rxSeqno := fromBeBytes (buffer.take 8) }),
          match Utf8.fromUtf8 (buffer.drop 8) with
          | none => .error .invalidEncryptedPayload
          | some text => .ok (String.ofList text),
          some ⟨s.key, nonce, makeRelayAd sender m.identity, ciphertext, some buffer⟩⟩ := by
  cases hp : parseRelayData c data with
  | error err =>
      refine .inl ⟨?_, err, ?_⟩ <;> simp only [decryptRelayData, hp]
  | ok parsed =>
      obtain ⟨nonce, ciphertext⟩ := parsed
      cases hs : m.sessions.get sender with
      | none => refine .inl ⟨?_, .handshakeRequired, ?_⟩ <;> simp only [decryptRelayData, hp, hs]
      | some s =>
          cases hd : c.decryptInPlace s.key nonce (makeRelayAd sender m.identity) ciphertext with
          | none => refine .inl ⟨?_, .crypto, ?_⟩ <;> simp only [decryptRelayData, hp, hs, hd]
          | some buffer =>
              by_cases hlen : buffer.length < 8
              · refine .inl ⟨?_, .invalidEncryptedPayload, ?_⟩ <;>
                  simp only [decryptRelayData, hp, hs, hd, hlen, if_true]
              · by_cases hseq : fromBeBytes (buffer.take 8) ≤ s.rxSeqno
                · refine .inl ⟨?_, .invalidEncryptedPayload, ?_⟩ <;>
                    simp only [decryptRelayData, hp, hs, hd, hlen, hseq, if_true, if_false]
                · refine .inr ⟨nonce, ciphertext, s, buffer, rfl, rfl, hd, not_lt.1 hlen,
                    UInt64.not_le.1 hseq, ?_⟩
                  simp only [decryptRelayData, hp, hs, hd, hlen, hseq, if_false]
                  cases Utf8.fromUtf8 (buffer.drop 8) with
                  | none => rfl
                  | some text => rfl

end Transport
end FolkAround
