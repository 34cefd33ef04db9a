import FolkAround.Signal.Room
import FolkAround.Transport.ReadLoop

/-!
# The size of a relayed answer

What the tools answer to a relayed request has no bound, while the room measures the
data of a relay and turns it away above 256 KiB.  Between the two lie the sequence
number, the tag, the hexadecimal digits and the JSON around them.

* `messageSize_relayObject` — the size of the data, from the length of the ciphertext.
* `encrypt_mem_handleRelay` — an answer that was encrypted is sent, in an object of
  that kind.
* `Ready`, `onMessage_ready` — a room in which nothing but the size can keep a relay
  from its addressee.
* `relay_fits_iff` — an answer fits and is forwarded exactly if its text has at most
  130994 bytes.
-/

namespace FolkAround
namespace Transport

open Signal

variable {c : Crates}

/-! ## The size of the data -/

/-- Hexadecimal digits are lower-case. -/
def Crates.HexLower (c : Crates) : Prop :=
  ∀ bytes, ∀ d ∈ (c.hexEncode bytes).toList, ('0' ≤ d ∧ d ≤ '9') ∨ ('a' ≤ d ∧ d ≤ 'f')

/-- Encryption adds a tag of 16 bytes. -/
def Crates.AddsTag (c : Crates) : Prop :=
  ∀ key nonce ad buffer ciphertext, c.encryptInPlace key nonce ad buffer = some ciphertext →
    ciphertext.length = buffer.length + 16

/-- What the size of an object depends on: the digits and the tag. -/
structure Crates.Sized (c : Crates) : Prop where
  twoDigits : c.HexTwoDigits
  lower : c.HexLower
  tag : c.AddsTag

theorem plainChar_digit {d : Char} (h : ('0' ≤ d ∧ d ≤ '9') ∨ ('a' ≤ d ∧ d ≤ 'f')) :
    Value.PlainChar d := by
  have hle : ∀ x y : Char, x ≤ y → x.toNat ≤ y.toNat := fun _ _ hxy => UInt32.le_iff_toNat_le.1 hxy
  have hrange : 0x30 ≤ d.toNat ∧ d.toNat ≤ 0x66 ∧ d.toNat ≠ 0x5c := by
    rcases h with ⟨hlow, hhigh⟩ | ⟨hlow, hhigh⟩
    · have h0 : 0x30 ≤ d.toNat := hle _ _ hlow
      have h9 : d.toNat ≤ 0x39 := hle _ _ hhigh
      omega
    · have ha : 0x61 ≤ d.toNat := hle _ _ hlow
      have hf : d.toNat ≤ 0x66 := hle _ _ hhigh
      omega
  refine ⟨by omega, by omega, ?_, ?_⟩
  · rintro rfl
    exact absurd hrange.1 (by decide)
  · rintro rfl
    exact hrange.2.2 rfl

/-- A string of hexadecimal digits takes two bytes for each byte it stands for. -/
theorem length_quote_hexEncode (hc : c.Sized) (bytes : Bytes) :
    (Utf8.encode (Value.quote (c.hexEncode bytes))).length = 2 * bytes.length + 2 := by
  rw [Value.length_encode_quote fun d hd => plainChar_digit (hc.lower bytes d hd),
    hc.twoDigits bytes]

/-- The runtime prints the number one as a digit. -/
def PrintsOne (js : Js) : Prop := js.numberText (.posInt 1) = ['1']

/-- The members of the object, but for the digits of the ciphertext, take 108 bytes. -/
theorem messageSize_relayObject (hc : c.Sized) {js : Js} (hone : PrintsOne js) (nonce : Nonce)
    (ciphertext : Bytes) :
    messageSize js (some (relayObject c nonce ciphertext)) = 108 + 2 * ciphertext.length := by
  have hchar : ∀ d : Char, d.toNat < 0x80 → (String.utf8EncodeChar d).length = 1 := by
    intro d hd
    rw [Utf8.utf8EncodeChar_ascii hd, List.length_singleton]
  have hopen := hchar '\x7b' (by decide)
  have hclose := hchar '\x7d' (by decide)
  have hcolon := hchar ':' (by decide)
  have hcomma := hchar ',' (by decide)
  have hdigit := hchar '1' (by decide)
  have hv : (Utf8.encode (Value.quote "v")).length = 3 := by decide +kernel
  have halg : (Utf8.encode (Value.quote "alg")).length = 5 := by decide +kernel
  have hname : (Utf8.encode (Value.quote "xchacha20poly1305")).length = 19 := by decide +kernel
  have hnonce : (Utf8.encode (Value.quote "nonce")).length = 7 := by decide +kernel
  have hcipher : (Utf8.encode (Value.quote "ciphertext")).length = 12 := by decide +kernel
  have hnil : (Utf8.encode []).length = 0 := rfl
  have hnumber : js.numberText (.posInt 1) = ['1'] := hone
  have hdigits := length_quote_hexEncode hc nonce.toList
  rw [List.Vector.toList_length] at hdigits
  have hbytes := length_quote_hexEncode hc ciphertext
  simp only [messageSize, relayObject, Value.stringify, Value.stringifyMembers, hnumber,
    Utf8.encode_append, Utf8.encode_cons, List.length_append, hopen, hclose, hcolon, hcomma, hdigit,
    hv, halg, hname, hnonce, hcipher, hnil, hdigits, hbytes]
  omega

/-! ## What is sent -/

/-- A relay is not answered, and nothing is encrypted, or the last thing that happens is
that the answer is sent. -/
theorem handleRelay_cases (m : P2PManager c)
    (reply : Value → Except TransportError (Option String)) (nonce : Nonce) (parsed : Value) :
    (∀ call ∈ (handleRelay m reply nonce parsed).calls,
        ∃ sender data result cipher, call = .decrypt sender data result cipher) ∨
      ∃ sender data resp, handleRelay m reply nonce parsed =
        sendReply (decryptRelayData m sender data).manager sender resp nonce
          [.decrypt sender data (decryptRelayData m sender data).result
            (decryptRelayData m sender data).cipher] := by
  have hnone : ∀ call ∈ ([] : List Call),
      ∃ sender data result cipher, call = .decrypt sender data result cipher := by simp
  have hone (sender : String) (data : Value) : ∀ call ∈ [Call.decrypt sender data
      (decryptRelayData m sender data).result (decryptRelayData m sender data).cipher],
      ∃ sender data result cipher, call = .decrypt sender data result cipher := by
    intro call hcall
    exact ⟨_, _, _, _, List.mem_singleton.1 hcall⟩
  unfold handleRelay
  split
  · exact .inl hnone
  · split
    · exact .inl hnone
    · split
      · exact .inl hnone
      · simp only
        split
        · exact .inl (hone _ _)
        · split
          · exact .inl (hone _ _)
          · split
            · exact .inl (hone _ _)
            · exact .inl (hone _ _)
            · exact .inr ⟨_, _, _, rfl⟩

theorem decryptRelayData_identity (m : P2PManager c) (sender : String) (data : Value) :
    (decryptRelayData m sender data).manager.identity = m.identity := by
  rcases decryptRelayData_cases m sender data with ⟨hm, -⟩ | ⟨_, _, s, buffer, -, -, -, -, -, hd⟩
  · rw [hm]
  · rw [hd, P2PManager.withSessions_identity]

/-- A payload that was encrypted is in an object, around a ciphertext that is longer by
the sequence number and the tag. -/
theorem encryptRelayPayload_ok (hc : c.Sized) {m : P2PManager c} {peer : String}
    {plaintext : Bytes} {nonce : Nonce} {value : Value}
    (h : (encryptRelayPayload m peer plaintext nonce).result = .ok value) :
    (encryptRelayPayload m peer plaintext nonce).manager.identity = m.identity ∧
      ∃ ciphertext, value = relayObject c nonce ciphertext ∧
        ciphertext.length = plaintext.length + 24 := by
  rcases encryptRelayPayload_cases m peer plaintext nonce with ⟨-, he⟩ | ⟨s, output, -, ho, he⟩
  · rw [he] at h
    exact absurd h (by simp)
  · rw [he] at h ⊢
    simp only at h
    cases output with
    | none => exact absurd h (by simp)
    | some ciphertext =>
        refine ⟨rfl, ciphertext, (Except.ok.inj h).symm, ?_⟩
        rw [hc.tag _ _ _ _ _ ho.symm, List.length_append, length_toBeBytes]
        omega

/-- An answer that was encrypted is what was sent. -/
theorem encrypt_mem_handleRelay (hc : c.Sized) {m : P2PManager c}
    {reply : Value → Except TransportError (Option String)} {nonce : Nonce} {parsed : Value}
    {peer : String} {plaintext : Bytes} {value : Value} {cipher : Option CipherUse}
    (h : .encrypt peer plaintext (.ok value) cipher ∈ (handleRelay m reply nonce parsed).calls) :
    (handleRelay m reply nonce parsed).sent = [relayMessage m peer value] ∧
      ∃ ciphertext, value = relayObject c nonce ciphertext ∧
        ciphertext.length = plaintext.length + 24 := by
  rcases handleRelay_cases m reply nonce parsed with hcalls | ⟨sender, data, resp, hrelay⟩
  · obtain ⟨_, _, _, _, hcall⟩ := hcalls _ h
    exact absurd hcall (by simp)
  · rw [hrelay] at h ⊢
    have hid := decryptRelayData_identity m sender data
    generalize (decryptRelayData m sender data).manager = m' at h hid ⊢
    simp only [sendReply] at h ⊢
    cases hresult : (encryptRelayPayload m' sender (Utf8.encode resp.toList) nonce).result with
    | error err =>
        rw [hresult] at h
        simp at h
    | ok encrypted =>
        obtain ⟨hid', ciphertext, hvalue, hlen⟩ := encryptRelayPayload_ok hc hresult
        rw [hresult] at h
        simp only [List.mem_append, List.mem_singleton, reduceCtorEq, false_or, Call.encrypt.injEq,
          Except.ok.injEq] at h
        obtain ⟨rfl, rfl, rfl, -⟩ := h
        refine ⟨?_, ciphertext, hvalue, hlen⟩
        simp only [relayMessage, hid', hid]

/-! ## The room -/

variable {Ws : Type} [DecidableEq Ws]

/-- A room in which nothing but its size can keep a relay of `own` from `target`: both
have joined, the rate limit lets it pass, and the connection to the target works. -/
structure Ready (env : Env Ws) (room : SignalRoom Ws) (server : Ws) (own target : Identity)
    (entry : PeerEntry Ws) : Prop where
  joined : room.sockets.get server = some own
  addressed : room.peers.get target = some entry
  counted : (checkRateLimit env server (.start room)).1 = true
  connected : env.sendFails entry.ws = false

theorem isIdentity_val (i : Identity) : isIdentity (some (.string i.val)) = some i := by
  rw [isIdentity, dif_pos i.property]

/-- A relay that is counted and let pass has sent nothing so far. -/
theorem checkRateLimit_passed {env : Env Ws} {server : Ws} {room : SignalRoom Ws}
    (h : (checkRateLimit env server (.start room)).1 = true) :
    ∃ t, checkRateLimit env server (.start room) = (true, t) ∧ t.room.peers = room.peers ∧
      t.out = [] ∧ t.thrown = false := by
  have hmaps := checkRateLimit_maps env server (.start room)
  simp only [checkRateLimit] at h hmaps ⊢
  split at h
  · exact absurd h (by simp)
  · next hcount =>
      rw [if_neg hcount] at hmaps ⊢
      exact ⟨_, rfl, hmaps.1, Turn.modify_out .., Turn.modify_thrown ..⟩

/-- In such a room only the size decides what becomes of a relay. -/
theorem onMessage_ready {env : Env Ws} {room : SignalRoom Ws} {server : Ws} {own target : Identity}
    {entry : PeerEntry Ws} (hready : Ready env room server own target entry) (m : P2PManager c)
    (hown : own.val = m.identity) (value : Value) :
    Output.send entry.ws (.envelope "relay" own (some value)) ∈
        (onMessage env server (some (relayMessage m target.val value)) room).out ↔
      messageSize env.js (some value) ≤ maxMessageBytes := by
  have htype : ((relayMessage m target.val value).get "type").bind Value.asStr = some "relay" := by
    simp [relayMessage]
  have hfrom : (relayMessage m target.val value).get "from" = some (.string own.val) := by
    rw [hown]
    simp [relayMessage, List.lookup_cons]
  have hto : (relayMessage m target.val value).get "to" = some (.string target.val) := by
    simp [relayMessage, List.lookup_cons]
  have hdata : (relayMessage m target.val value).get "data" = some value := by
    simp [relayMessage, List.lookup_cons]
  have hnull : (relayMessage m target.val value).isNull = false := rfl
  have hsender : isSender env server ((relayMessage m target.val value).get "from") (.start room) =
      (true, .start room) := by
    simp [isSender, Turn.start, hready.joined, hfrom]
  obtain ⟨t, hcounted, hpeers, hout, hthrown⟩ := checkRateLimit_passed hready.counted
  have hhandle : handleMessage env server (relayMessage m target.val value) (.start room) =
      forward env server "relay" (relayMessage m target.val value) t := by
    simp [handleMessage, hnull, htype, Signal.handleRelay, hsender, hcounted]
  have haddressed : t.room.peers.get target = some entry := by
    rw [hpeers, hready.addressed]
  simp only [onMessage, hhandle, forward, hfrom, hto, hdata, isIdentity_val, haddressed]
  by_cases hsize : messageSize env.js (some value) > maxMessageBytes
  · rw [if_pos hsize]
    refine iff_of_false ?_ (not_le.2 hsize)
    cases hfails : env.sendFails server with
    | true => simp [Turn.recover, Turn.send, Turn.throw, hout, hthrown, hfails]
    | false => simp [Turn.recover, Turn.send, hout, hthrown, hfails]
  · rw [if_neg hsize]
    refine iff_of_true ?_ (not_lt.1 hsize)
    simp [Turn.recover, Turn.send, hout, hthrown, hready.connected]

/-! ## Which answers fit -/

/-- The longest text of an answer that the room lets pass, in bytes. -/
def maxReplyBytes : Nat := 130994

theorem messageSize_le_iff (hc : c.Sized) {js : Js} (hone : PrintsOne js) (nonce : Nonce)
    {ciphertext plaintext : Bytes} (hlen : ciphertext.length = plaintext.length + 24) :
    messageSize js (some (relayObject c nonce ciphertext)) ≤ maxMessageBytes ↔
      plaintext.length ≤ maxReplyBytes := by
  rw [messageSize_relayObject hc hone nonce, hlen, maxMessageBytes, maxReplyBytes]
  omega

/-- A room that is ready for it forwards what was sent for a peer. -/
def Forwarded (Ws : Type) [DecidableEq Ws] (js : Js) (m : P2PManager c) (peer : String)
    (value : Value) (sent : List Value) : Prop :=
  ∀ (env : Env Ws) (room : SignalRoom Ws) (server : Ws) (own target : Identity)
    (entry : PeerEntry Ws), env.js = js → own.val = m.identity → target.val = peer →
    Ready env room server own target entry →
    ∃ msg, sent = [msg] ∧ Output.send entry.ws (.envelope "relay" own (some value)) ∈
      (onMessage env server (some msg) room).out

/-- **The room turns long answers away.**  An answer that is encrypted and sent is of a
size the room allows, and is forwarded to its addressee, exactly if its text has at most
`maxReplyBytes` bytes. -/
theorem relay_fits_iff (Ws : Type) [DecidableEq Ws] (hc : c.Sized) {m : P2PManager c}
    {reply : Value → Except TransportError (Option String)} {nonce : Nonce} {parsed : Value}
    {peer : String} {plaintext : Bytes} {value : Value} {cipher : Option CipherUse}
    (hcall : .encrypt peer plaintext (.ok value) cipher ∈ (handleRelay m reply nonce parsed).calls)
    {js : Js} (hone : PrintsOne js) :
    (messageSize js (some value) ≤ maxMessageBytes ∧
        Forwarded Ws js m peer value (handleRelay m reply nonce parsed).sent) ↔
      plaintext.length ≤ maxReplyBytes := by
  obtain ⟨hsent, ciphertext, rfl, hlen⟩ := encrypt_mem_handleRelay hc hcall
  rw [← messageSize_le_iff hc hone nonce hlen]
  constructor
  · rintro ⟨hle, -⟩
    exact hle
  · intro hle
    refine ⟨hle, ?_⟩
    rintro env room server own target entry rfl hown rfl hready
    exact ⟨_, hsent, (onMessage_ready hready m hown _).2 hle⟩

/-! ## Two answers -/

theorem encryptRelayPayload_some {m : P2PManager c} {peer : String} {s : Session}
    (hs : m.sessions.get peer = some s) {plaintext ciphertext : Bytes} {nonce : Nonce}
    (h : c.encryptInPlace s.key nonce (makeRelayAd m.identity peer)
      (toBeBytes s.txSeqno ++ plaintext) = some ciphertext) :
    (encryptRelayPayload m peer plaintext nonce).result = .ok (relayObject c nonce ciphertext) := by
  simp only [encryptRelayPayload, hs, h]

theorem encrypt_mem_sendReply {m : P2PManager c} {sender resp : String} {nonce : Nonce}
    {value : Value}
    (h : (encryptRelayPayload m sender (Utf8.encode resp.toList) nonce).result = .ok value)
    (calls : List Call) :
    ∃ cipher, .encrypt sender (Utf8.encode resp.toList) (.ok value) cipher ∈
      (sendReply m sender resp nonce calls).calls := by
  refine ⟨(encryptRelayPayload m sender (Utf8.encode resp.toList) nonce).cipher, ?_⟩
  simp only [sendReply, h]
  exact List.mem_append_right _ (List.mem_singleton_self _)

/-- A request that opens is answered with what the tools say, however long it is. -/
theorem encrypt_mem_of_opens {m : P2PManager c} {parsed data msg : Value}
    {sender text resp : String} {s : Session}
    {reply : Value → Except TransportError (Option String)} {nonce : Nonce}
    (hsender : senderOf parsed = some sender) (hdata : parsed.get "data" = some data)
    (hopens : Opens m sender data s text) (hmsg : c.fromStr text = some msg)
    (hreply : reply msg = .ok (some resp))
    (hcan : (c.encryptInPlace s.key nonce (makeRelayAd m.identity sender)
      (toBeBytes s.txSeqno ++ Utf8.encode resp.toList)).isSome) :
    ∃ value cipher, .encrypt sender (Utf8.encode resp.toList) (.ok value) cipher ∈
      (handleRelay m reply nonce parsed).calls := by
  obtain ⟨hok, seqno, hm⟩ := decryptRelayData_of_opens hopens
  obtain ⟨ciphertext, hciphertext⟩ := Option.isSome_iff_exists.1 hcan
  have hknown : ensureRelaySender m sender = .ok () := by
    rw [ensureRelaySender, hopens.session]
    rfl
  rw [senderOf] at hsender
  simp only [handleRelay, hsender, hdata, hknown, hok, hmsg, hreply, hm]
  have hencrypt := encryptRelayPayload_some (get_received m sender s seqno) hciphertext
  exact ⟨_, encrypt_mem_sendReply hencrypt _⟩

namespace Reference

/-- The reference crates with a JSON reader that knows the empty object. -/
def replyCrates : Crates := { withoutJson with fromStr := readAmong [.object [], offer] }

/-- The second manager with its session. -/
def replyManager : P2PManager replyCrates :=
  (P2PManager.new replyCrates secretB).withSessions
    (OrdMap.empty.set (hexEncode publicA.toList) ⟨keyAB, 0, 0⟩)

/-- The second payload of the first manager, as the data of a relay. -/
def secondData : Value := relayObject replyCrates nonce ((sealed.map Prod.snd).getD 1 [])

/-- The relay as the room passes it on. -/
def secondRelay : Value :=
  .object [("type", .string "relay"), ("from", .string (hexEncode publicA.toList)),
    ("data", secondData)]

/-- Tools with one answer to everything. -/
def answering (resp : String) (_ : Value) : Except TransportError (Option String) := .ok (some resp)

theorem replyCrates_sized : replyCrates.Sized where
  twoDigits := length_hexEncode
  lower := by
    intro bytes d hd
    have hdigit : ∀ n < 16, ('0' ≤ hexDigit n ∧ hexDigit n ≤ '9') ∨
        ('a' ≤ hexDigit n ∧ hexDigit n ≤ 'f') := by decide
    change d ∈ (hexEncode bytes).toList at hd
    rw [hexEncode, String.toList_ofList] at hd
    obtain ⟨b, -, hb⟩ := List.mem_flatMap.1 hd
    have hlt : b.toNat < 256 := b.toNat_lt
    rcases List.mem_pair.1 hb with rfl | rfl
    · exact hdigit _ (by omega)
    · exact hdigit _ (by omega)
  tag := by
    intro key n ad buffer ciphertext h
    change encryptInPlace key n ad buffer = some ciphertext at h
    have hsealed : ∀ p ∈ sealed, p.2.length = p.1.length + 16 := by decide +kernel
    unfold encryptInPlace at h
    split at h
    · next p hp =>
        obtain ⟨-, -, -, hbuffer⟩ : key = keyAB ∧ n = nonce ∧ ad = adAB ∧ buffer = p.1 := by
          simpa using List.find?_some hp
        rw [← Option.some.inj h, hsealed p (List.mem_of_find?_eq_some hp), hbuffer]
    · rw [← Option.some.inj h, List.length_append]
      rfl

/-- Whatever the tools answer is encrypted for the first manager. -/
theorem answer_encrypted (resp : String) :
    ∃ value cipher, .encrypt (hexEncode publicA.toList) (Utf8.encode resp.toList) (.ok value) cipher ∈
      (handleRelay replyManager (answering resp) nonce secondRelay).calls := by
  have hopen : (decryptRelayData replyManager (hexEncode publicA.toList) secondData).result.toOption =
      some request := by decide +kernel
  have hok : (decryptRelayData replyManager (hexEncode publicA.toList) secondData).result =
      .ok request := by
    cases hresult : (decryptRelayData replyManager (hexEncode publicA.toList) secondData).result with
    | error err =>
        rw [hresult] at hopen
        exact absurd hopen (by simp [Except.toOption])
    | ok text =>
        rw [hresult] at hopen
        exact congrArg _ (Option.some.inj hopen)
  obtain ⟨s, hopens⟩ := opens_of_decryptRelayData hok
  have hread : replyCrates.fromStr request = some (.object []) := by
    have htext : text (.object []) = request := by decide +kernel
    simp only [replyCrates, ← htext, readAmong_first]
  have hsome : ∀ key n ad buffer, (replyCrates.encryptInPlace key n ad buffer).isSome := by
    intro key n ad buffer
    change (encryptInPlace key n ad buffer).isSome
    unfold encryptInPlace
    split
    · rfl
    · rfl
  have hfrom : senderOf secondRelay = some (hexEncode publicA.toList) := by
    simp [senderOf, secondRelay, List.lookup_cons]
  have hdata : secondRelay.get "data" = some secondData := by
    simp [secondRelay, List.lookup_cons]
  exact encrypt_mem_of_opens hfrom hdata hopens hread rfl (hsome ..)

def identityA : Identity := ⟨hexEncode publicA.toList, by decide +kernel⟩

def identityB : Identity := ⟨hexEncode publicB.toList, by decide +kernel⟩

/-- The room both managers have joined, the first on socket 1 and the second on 2. -/
def sharedRoom : SignalRoom Nat := registered 2 identityB 0 (registered 1 identityA 0 .new)

def roomEnv : Env Nat := ⟨⟨fun _ => ['1'], fun _ => none⟩, fun _ => false, 0, 0⟩

theorem sharedRoom_ready : Ready roomEnv sharedRoom 2 identityB identityA ⟨1, 0⟩ where
  joined := by decide +kernel
  addressed := by
    have hne : identityB ≠ identityA := by decide +kernel
    rw [sharedRoom, get_peers_registered, if_neg hne, get_peers_registered, if_pos rfl]
  counted := by decide +kernel
  connected := rfl

theorem identity_replyManager : identityB.val = replyManager.identity := by
  rw [replyManager, P2PManager.withSessions_identity]
  change _ = hexEncode (x25519Public secretB).toList
  rw [x25519Public_secretB]
  rfl

/-- An answer of one byte too many. -/
def longAnswer : String := String.ofList (List.replicate (maxReplyBytes + 1) 'a')

end Reference

open Reference in
/-- A short answer is forwarded to the first manager. -/
theorem relay_fits_short :
    ∃ value cipher, .encrypt identityA.val (Utf8.encode request.toList) (.ok value) cipher ∈
        (handleRelay replyManager (answering request) nonce secondRelay).calls ∧
      ∃ msg, (handleRelay replyManager (answering request) nonce secondRelay).sent = [msg] ∧
        Output.send 1 (.envelope "relay" identityB (some value)) ∈
          (onMessage roomEnv 2 (some msg) sharedRoom).out := by
  obtain ⟨value, cipher, hcall⟩ := answer_encrypted request
  have hone : PrintsOne roomEnv.js := rfl
  have hshort : (Utf8.encode request.toList).length ≤ maxReplyBytes := by decide +kernel
  have hfits := (relay_fits_iff Nat replyCrates_sized hcall hone).2 hshort
  exact ⟨value, cipher, hcall, hfits.2 roomEnv sharedRoom 2 identityB identityA ⟨1, 0⟩ rfl
    identity_replyManager rfl sharedRoom_ready⟩

open Reference in
/-- A long one is encrypted and sent as well, and the room turns it away. -/
theorem long_answer_dropped :
    ∃ value cipher, .encrypt identityA.val (Utf8.encode longAnswer.toList) (.ok value) cipher ∈
        (handleRelay replyManager (answering longAnswer) nonce secondRelay).calls ∧
      maxMessageBytes < messageSize roomEnv.js (some value) ∧
      ∀ msg ∈ (handleRelay replyManager (answering longAnswer) nonce secondRelay).sent,
        Output.send 1 (.envelope "relay" identityB (some value)) ∉
          (onMessage roomEnv 2 (some msg) sharedRoom).out := by
  obtain ⟨value, cipher, hcall⟩ := answer_encrypted longAnswer
  obtain ⟨hsent, ciphertext, rfl, hlen⟩ := encrypt_mem_handleRelay replyCrates_sized hcall
  have hone : PrintsOne roomEnv.js := rfl
  have hlong : ¬ (Utf8.encode longAnswer.toList).length ≤ maxReplyBytes := by
    rw [longAnswer, String.toList_ofList, Utf8.length_encode_of_ascii]
    · rw [List.length_replicate]
      exact Nat.not_succ_le_self _
    · intro ch hch
      rw [List.eq_of_mem_replicate hch]
      decide
  have hsize := mt (messageSize_le_iff replyCrates_sized hone nonce hlen).1 hlong
  refine ⟨_, cipher, hcall, not_le.1 hsize, ?_⟩
  intro msg hmsg hout
  rw [hsent, List.mem_singleton] at hmsg
  rw [hmsg] at hout
  exact hsize ((onMessage_ready sharedRoom_ready replyManager identity_replyManager _).1 hout)

end Transport
end FolkAround
