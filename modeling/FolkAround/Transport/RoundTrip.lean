import FolkAround.Transport.Network

/-!
# A relay without loss

Two managers with fresh sessions for each other, and any others besides; the first encrypts
payloads, the network may drop some, and the second decrypts the rest in the same order.

* `sendAll`, `receiveAll` — the two ends.
* `decryptRelayData_genuine` — a payload is accepted, and read back, exactly if its
  number is above the highest one received.
* `round_trip_iff` — everything that is delivered is read back exactly if the first
  payload of the session is not among it.  The sender counts from 0 and the receiver
  starts as if 0 had come in already.
-/

namespace FolkAround
namespace Transport

variable {c : Crates}

/-! ## The two ends -/

/-- A payload that was encrypted: its place in the session, its text, and the value. -/
structure Sent where
  index : Nat
  plaintext : String
  value : Value

/-- Encrypt texts for a peer one after the other, each under the nonce drawn for it. -/
def sendAll (m : P2PManager c) (peer : String) (index : Nat) : List (String × Nonce) → List Sent
  | [] => []
  | (plaintext, nonce) :: rest =>
    let done := encryptRelayPayload m peer (Utf8.encode plaintext.toList) nonce
    match done.result with
    | .ok value => ⟨index, plaintext, value⟩ :: sendAll done.manager peer (index + 1) rest
    | .error _ => sendAll done.manager peer (index + 1) rest

/-- Decrypt values from a sender one after the other. -/
def receiveAll (m : P2PManager c) (sender : String) :
    List Value → List (Except TransportError String)
  | [] => []
  | data :: rest =>
    let done := decryptRelayData m sender data
    done.result :: receiveAll done.manager sender rest

/-! ## One payload -/

/-- The value holds the payload with its index, encrypted under a key between two
identities. -/
def Genuine (c : Crates) (key : Key) (ad : Bytes) (s : Sent) : Prop :=
  ∃ nonce ciphertext, s.value = relayObject c nonce ciphertext ∧
    c.encryptInPlace key nonce ad
      (toBeBytes (UInt64.ofNat s.index) ++ Utf8.encode s.plaintext.toList) = some ciphertext

theorem hexMember_eq_ok {encrypted : Value} {key text : String} {bytes : Bytes}
    (hget : encrypted.get key = some (.string text)) (hdecode : c.hexDecode text = some bytes) :
    hexMember c encrypted key = .ok bytes := by
  simp [hexMember, hget, hdecode]

/-- The object around a nonce and a ciphertext is taken apart again. -/
theorem parseRelayData_relayObject (hhex : c.HexRoundTrip) (nonce : Nonce) (ciphertext : Bytes) :
    parseRelayData c (relayObject c nonce ciphertext) = .ok (nonce, ciphertext) := by
  have hnonce : hexMember c (relayObject c nonce ciphertext) "nonce" = .ok nonce.toList :=
    hexMember_eq_ok (by simp [relayObject, List.lookup_cons]) (hhex nonce.toList)
  have hciphertext : hexMember c (relayObject c nonce ciphertext) "ciphertext" = .ok ciphertext :=
    hexMember_eq_ok (by simp [relayObject, List.lookup_cons]) (hhex ciphertext)
  have hv : ((relayObject c nonce ciphertext).get "v").bind Value.asI64 = some 1 := rfl
  have halg : ((relayObject c nonce ciphertext).get "alg").bind Value.asStr =
      some "xchacha20poly1305" := by simp [relayObject, List.lookup_cons]
  have hstr : (relayObject c nonce ciphertext).asStr = none := rfl
  have hlen : nonce.toList.length = 24 := nonce.toList_length
  simp only [parseRelayData, hstr, parseEncrypted, hv, halg, hnonce, hciphertext, hlen, dif_pos,
    ne_eq, not_true, if_false]
  rfl

/-- **One payload.**  It is read back if its number is above the highest one received,
and rejected otherwise. -/
theorem decryptRelayData_genuine (hdec : c.DecryptsEncrypted) (hhex : c.HexRoundTrip)
    {m : P2PManager c} {sender : String} {s : Session} (hs : m.sessions.get sender = some s)
    {x : Sent} (hx : Genuine c s.key (makeRelayAd sender m.identity) x) :
    let n := UInt64.ofNat x.index
    (n ≤ s.rxSeqno → (decryptRelayData m sender x.value).result =
        .error .invalidEncryptedPayload) ∧
      (s.rxSeqno < n → (decryptRelayData m sender x.value).result = .ok x.plaintext ∧
        (decryptRelayData m sender x.value).manager =
          m.withSessions (m.sessions.set sender { s with rxSeqno := n })) := by
  obtain ⟨nonce, ciphertext, hvalue, henc⟩ := hx
  have hbuffer := hdec _ _ _ _ _ henc
  have hlen : ¬ (toBeBytes (UInt64.ofNat x.index) ++ Utf8.encode x.plaintext.toList).length < 8 := by
    simp
  have htake : (toBeBytes (UInt64.ofNat x.index) ++ Utf8.encode x.plaintext.toList).take 8 =
      toBeBytes (UInt64.ofNat x.index) := List.take_left' (length_toBeBytes _)
  have hdrop : (toBeBytes (UInt64.ofNat x.index) ++ Utf8.encode x.plaintext.toList).drop 8 =
      Utf8.encode x.plaintext.toList := List.drop_left' (length_toBeBytes _)
  refine ⟨fun hle => ?_, fun hlt => ?_⟩
  · simp only [decryptRelayData, hvalue, parseRelayData_relayObject hhex, hs, hbuffer, hlen, htake,
      fromBeBytes_toBeBytes, hle, if_true, if_false]
  · have hnle : ¬ UInt64.ofNat x.index ≤ s.rxSeqno := UInt64.not_le.2 hlt
    simp only [decryptRelayData, hvalue, parseRelayData_relayObject hhex, hs, hbuffer, hlen, htake,
      hdrop, fromBeBytes_toBeBytes, hnle, if_false, Utf8.fromUtf8_encode, String.ofList_toList]
    exact ⟨trivial, trivial⟩

/-! ## A whole session -/

/-- Payloads in the order in which they were encrypted. -/
def InOrder (l : List Sent) : Prop := l.Pairwise fun x y => x.index < y.index

/-- What is sent: genuine payloads under the session's key, numbered upwards from the
session's next number. -/
theorem sendAll_genuine {peer : String} (msgs : List (String × Nonce)) :
    ∀ (m : P2PManager c) (s : Session) (k : Nat), m.sessions.get peer = some s →
      s.txSeqno = UInt64.ofNat k →
      (∀ x ∈ sendAll m peer k msgs, Genuine c s.key (makeRelayAd m.identity peer) x ∧
        k ≤ x.index ∧ x.index < k + msgs.length) ∧ InOrder (sendAll m peer k msgs) := by
  induction msgs with
  | nil => exact fun m s k hs htx => ⟨by simp [sendAll], List.Pairwise.nil⟩
  | cons msg msgs ih =>
      obtain ⟨plaintext, nonce⟩ := msg
      intro m s k hs htx
      obtain ⟨t, output, ht, hout, hdone⟩ :=
        (encryptRelayPayload_cases m peer (Utf8.encode plaintext.toList) nonce).resolve_left
          (fun h => absurd (hs.symm.trans h.1) (by simp))
      obtain rfl : s = t := Option.some.inj (hs.symm.trans ht)
      -- the session after this payload, whether the cipher succeeded or not
      obtain ⟨hrest, horder⟩ := ih
        (m.withSessions (m.sessions.set peer { s with txSeqno := s.txSeqno + 1 }))
        { s with txSeqno := s.txSeqno + 1 } (k + 1) (by simp) (by simp [htx])
      have htail : ∀ x ∈ sendAll
          (m.withSessions (m.sessions.set peer { s with txSeqno := s.txSeqno + 1 })) peer (k + 1)
          msgs, Genuine c s.key (makeRelayAd m.identity peer) x ∧ k ≤ x.index ∧
            x.index < k + (msgs.length + 1) := by
        intro x hx
        obtain ⟨hgen, hle, hlt⟩ := hrest x hx
        exact ⟨hgen, by omega, by omega⟩
      cases output with
      | none =>
          simp only [sendAll, hdone, List.length_cons]
          exact ⟨htail, horder⟩
      | some ciphertext =>
          simp only [sendAll, hdone, List.length_cons]
          refine ⟨fun x hx => ?_, List.Pairwise.cons (fun x hx => ?_) horder⟩
          · rcases List.mem_cons.1 hx with rfl | hx
            · exact ⟨⟨nonce, ciphertext, rfl, htx ▸ hout.symm⟩, le_refl k,
              Nat.lt_add_of_pos_right (Nat.succ_pos _)⟩
            · exact htail x hx
          · exact Nat.lt_of_succ_le (hrest x hx).2.1

/-- What is received: everything, if it is genuine, in order, and above the highest
number received before. -/
theorem receiveAll_genuine (hdec : c.DecryptsEncrypted) (hhex : c.HexRoundTrip) {sender : String}
    (l : List Sent) :
    ∀ (m : P2PManager c) (s : Session), m.sessions.get sender = some s →
      (∀ x ∈ l, Genuine c s.key (makeRelayAd sender m.identity) x ∧
        s.rxSeqno.toNat < x.index ∧ x.index < 2 ^ 64) → InOrder l →
      receiveAll m sender (l.map Sent.value) = l.map fun x => .ok x.plaintext := by
  induction l with
  | nil => exact fun _ _ _ _ _ => rfl
  | cons x l ih =>
      intro m s hs hall horder
      obtain ⟨hgen, hlt, hbound⟩ := hall x (List.mem_cons_self ..)
      have hnat : (UInt64.ofNat x.index).toNat = x.index := UInt64.toNat_ofNat_of_lt' hbound
      obtain ⟨hresult, hmanager⟩ := (decryptRelayData_genuine hdec hhex hs hgen).2
        (UInt64.lt_iff_toNat_lt.2 (hnat.symm ▸ hlt))
      obtain ⟨hhead, htail⟩ := List.pairwise_cons.1 horder
      rw [List.map_cons, List.map_cons, receiveAll, hresult, hmanager]
      refine congrArg _ (ih _ { s with rxSeqno := UInt64.ofNat x.index } (by simp) ?_ htail)
      intro y hy
      obtain ⟨hgeny, -, hboundy⟩ := hall y (List.mem_cons_of_mem _ hy)
      refine ⟨hgeny, ?_, hboundy⟩
      simp only [hnat]
      exact hhead y hy

/-- Two managers without a session for each other share a key once they have established one. -/
theorem establishSession_fresh (hshared : c.SharedComm) (hhex : c.HexRoundTrip)
    {M N A B : P2PManager c} (hM : M.sessions.get N.identity = none)
    (hN : N.sessions.get M.identity = none) (hA : establishSession M N.identity = .ok A)
    (hB : establishSession N M.identity = .ok B) :
    ∃ key, A.identity = M.identity ∧ B.identity = N.identity ∧
      A.sessions.get B.identity = some ⟨key, 0, 0⟩ ∧
      B.sessions.get A.identity = some ⟨key, 0, 0⟩ := by
  obtain ⟨pB, keyA, hpB, hkeyA, hsameA, hgetA⟩ := establishSession_ok hA
  obtain ⟨pA, keyB, hpA, hkeyB, hsameB, hgetB⟩ := establishSession_ok hB
  rw [parseIdentity_identity hhex, Except.ok.injEq] at hpA hpB
  rw [← hpB, sessionKey_comm hshared, hpA, hkeyB] at hkeyA
  have hidA : A.identity = M.identity := by rw [hsameA, P2PManager.withSessions_identity]
  have hidB : B.identity = N.identity := by rw [hsameB, P2PManager.withSessions_identity]
  refine ⟨keyA, hidA, hidB, ?_, ?_⟩
  · rw [hgetA, hidB, if_pos ⟨rfl, hM⟩]
  · rw [hgetB, hidA, if_pos ⟨rfl, hN⟩, Option.some.inj hkeyA]

/-- **The first payload is lost.**  Between managers whose sessions for each other are fresh,
whatever other sessions they have, everything that is delivered is read back exactly if the
first payload encrypted is not among it. -/
theorem round_trip_iff (hshared : c.SharedComm) (hdec : c.DecryptsEncrypted)
    (hhex : c.HexRoundTrip) {M N A B : P2PManager c}
    (hM : M.sessions.get N.identity = none) (hN : N.sessions.get M.identity = none)
    (hA : establishSession M N.identity = .ok A) (hB : establishSession N M.identity = .ok B)
    {msgs : List (String × Nonce)} (hlen : msgs.length < 2 ^ 64) {delivered : List Sent}
    (hdel : delivered.Sublist (sendAll A B.identity 0 msgs)) :
    receiveAll B A.identity (delivered.map Sent.value) =
        delivered.map (fun x => .ok x.plaintext) ↔
      ∀ x ∈ delivered, x.index ≠ 0 := by
  obtain ⟨key, -, -, hsA, hsB⟩ := establishSession_fresh hshared hhex hM hN hA hB
  obtain ⟨hsent, hsorted⟩ := sendAll_genuine msgs A _ 0 hsA rfl
  have horder : InOrder delivered := hsorted.sublist hdel
  constructor
  · intro h x hx hzero
    -- the payload number 0 can only be the first one delivered
    cases delivered with
    | nil => exact absurd hx (by simp)
    | cons y l =>
        obtain ⟨hhead, -⟩ := List.pairwise_cons.1 horder
        have hy0 : y.index = 0 := by
          rcases List.mem_cons.1 hx with rfl | hx
          · exact hzero
          · have := hhead x hx
            omega
        obtain ⟨hgen, -, -⟩ := hsent y (hdel.subset (List.mem_cons_self ..))
        have hrejected := (decryptRelayData_genuine hdec hhex hsB hgen).1 (by
          rw [hy0]
          exact UInt64.le_refl _)
        rw [List.map_cons, List.map_cons, receiveAll, hrejected, List.cons.injEq] at h
        exact absurd h.1 (by simp)
  · intro h
    refine receiveAll_genuine hdec hhex delivered B _ hsB (fun x hx => ?_) horder
    obtain ⟨hgen, -, hbound⟩ := hsent x (hdel.subset hx)
    have hpos := h x hx
    exact ⟨hgen, by simp only [UInt64.toNat_zero]; omega, by omega⟩

open Reference in
theorem round_trip_second :
    let sent := sendAll managerA managerB.identity 0 [(request, nonce), (request, nonce)]
    let delivered := sent.filter fun x => x.index ≠ 0
    delivered.map Sent.plaintext = [request] ∧
      receiveAll managerB managerA.identity (delivered.map Sent.value) =
        delivered.map (fun x => .ok x.plaintext) := by
  intro sent delivered
  refine ⟨by decide +kernel, (round_trip_iff reference_shared reference_decrypts reference_hex
    rfl rfl establish_managerA establish_managerB (by decide) List.filter_sublist).2
    fun x hx => ?_⟩
  simpa using (List.mem_filter.1 hx).2

open Reference in
/-- One payload between two fresh sessions, delivered: it is turned away. -/
theorem first_payload_lost :
    let sent := sendAll managerA managerB.identity 0 [(request, nonce)]
    establishSession (.new reference secretA) (P2PManager.new reference secretB).identity =
        .ok managerA ∧
      establishSession (.new reference secretB) (P2PManager.new reference secretA).identity =
        .ok managerB ∧
      sent.map Sent.plaintext = [request] ∧
      receiveAll managerB managerA.identity (sent.map Sent.value) ≠
        sent.map (fun x => .ok x.plaintext) := by
  intro sent
  have hlost : (receiveAll managerB managerA.identity (sent.map Sent.value)).map
      Except.toOption = [none] := by decide +kernel
  have hsent : sent.map Sent.plaintext = [request] := by decide +kernel
  refine ⟨establish_managerA, establish_managerB, hsent, fun h => ?_⟩
  rw [h] at hlost
  have hsome : (sent.map Sent.plaintext).map some = [none] := by
    rw [← hlost]
    simp [Except.toOption]
  rw [hsent] at hsome
  exact absurd hsome (by simp)

end Transport
end FolkAround
