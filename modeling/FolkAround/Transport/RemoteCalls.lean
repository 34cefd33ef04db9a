import FolkAround.Lib.Simulation
import FolkAround.Transport.RoundTrip

/-!
# Calls over the relay

One end of a session calls the tools of the other: a request is encrypted, relayed, decrypted
and answered, and the answer comes back in the same way.  Seen from outside this is a plain
line between the two, which loses what goes over it first in either direction.

* `Attempt`, `call` — a call, with what gets lost on the way.
* `answerTo` — what the tools answer to a text.
* `plainCall` — the line as it is seen from outside: two flags, and no cryptography.
* `Linked` — the sessions of the two ends, told by how much was sent and received.
* `remote_calls` — over whole runs, the ends behave as the plain line.
-/

namespace FolkAround
namespace Transport

/-- A buffer that is not too long is encrypted. -/
def Crates.Encrypts (c : Crates) (maxBuffer : Nat) : Prop :=
  ∀ key nonce ad buffer, buffer.length ≤ maxBuffer →
    ∃ ciphertext, c.encryptInPlace key nonce ad buffer = some ciphertext

variable {c : Crates}

/-! ## A call -/

/-- A call from one of the two ends: the request, how the tools of the other end answer to
a message, the nonces, and whether request and answer arrive. -/
structure Attempt where
  caller : Bool
  request : String
  reply : Value → Except TransportError (Option String)
  there : Nonce
  back : Nonce
  arrives : Bool
  returns : Bool

/-- The payload of the message that was sent, if one was. -/
def sentData (sent : List Value) : Option Value := sent.head?.bind fun msg => msg.get "data"

/-- The call, between two managers; what the caller gets for it. -/
def call (ends : Bool → P2PManager c) (x : Attempt) : (Bool → P2PManager c) × Option String :=
  let i := x.caller
  let request := encryptRelayPayload (ends i) (ends !i).identity (Utf8.encode x.request.toList)
    x.there
  let asked := Function.update ends i request.manager
  match request.result with
  | .error _ => (asked, none)
  | .ok value =>
    if x.arrives = false then (asked, none)
    else
      let handled := handleRelay (asked !i) x.reply x.back
        (relayMessage (asked i) (asked !i).identity value)
      let served := Function.update asked (!i) handled.manager
      match sentData handled.sent with
      | none => (served, none)
      | some data =>
        if x.returns = false then (served, none)
        else
          let answer := decryptRelayData (served i) (served !i).identity data
          (Function.update served i answer.manager, answer.result.toOption)

/-! ## The line as it is seen from outside -/

/-- What the tools answer to a text. -/
def answerTo (c : Crates) (reply : Value → Except TransportError (Option String))
    (text : String) : Option String :=
  match c.fromStr text with
  | none => none
  | some msg =>
    match reply msg with
    | .ok (some resp) => some resp
    | _ => none

/-- A call over a plain line.  `warm` tells for either end whether anything was sent from
there; what is sent first is lost. -/
def plainCall (c : Crates) (warm : Bool → Bool) (x : Attempt) : (Bool → Bool) × Option String :=
  let i := x.caller
  let asked := Function.update warm i true
  if x.arrives = false ∨ warm i = false then (asked, none)
  else
    match answerTo c x.reply x.request with
    | none => (asked, none)
    | some resp =>
      (Function.update asked (!i) true, if x.returns ∧ warm !i then some resp else none)

/-! ## One payload -/

/-- The session of a manager with a peer, with so much received and sent. -/
def Session.counts (key : Key) (received sent : Nat) : Session :=
  ⟨key, UInt64.ofNat received, UInt64.ofNat sent⟩

/-- A payload that is sent has the next number. -/
theorem encryptRelayPayload_counts {m : P2PManager c} {peer : String} {key : Key} {r n : Nat}
    {maxBuffer : Nat} (hencrypts : c.Encrypts maxBuffer)
    (hs : m.sessions.get peer = some (.counts key r n)) {text : String} (nonce : Nonce)
    (hfits : (Utf8.encode text.toList).length + 8 ≤ maxBuffer) :
    ∃ value, (encryptRelayPayload m peer (Utf8.encode text.toList) nonce).result = .ok value ∧
      (encryptRelayPayload m peer (Utf8.encode text.toList) nonce).manager =
        m.withSessions (m.sessions.set peer (.counts key r (n + 1))) ∧
      Genuine c key (makeRelayAd m.identity peer) ⟨n, text, value⟩ := by
  have hlen : (toBeBytes (UInt64.ofNat n) ++ Utf8.encode text.toList).length ≤ maxBuffer := by
    rw [List.length_append, length_toBeBytes]
    omega
  obtain ⟨ciphertext, hcipher⟩ := hencrypts key nonce (makeRelayAd m.identity peer) _ hlen
  have hnext : UInt64.ofNat n + 1 = UInt64.ofNat (n + 1) := by simp
  refine ⟨relayObject c nonce ciphertext, ?_, ?_, nonce, ciphertext, rfl, hcipher⟩
  · simp only [encryptRelayPayload, hs, Session.counts, hcipher]
  · simp only [encryptRelayPayload, hs, Session.counts, hcipher, hnext]

/-- A payload is received if its number is above all that were, and turned away if not. -/
theorem decryptRelayData_counts (hdec : c.DecryptsEncrypted) (hhex : c.HexRoundTrip)
    {m : P2PManager c} {sender : String} {key : Key} {r n : Nat} {x : Sent}
    (hs : m.sessions.get sender = some (.counts key r n)) (hr : r < 2 ^ 64)
    (hx : Genuine c key (makeRelayAd sender m.identity) x) (hindex : x.index < 2 ^ 64) :
    (x.index ≤ r → (decryptRelayData m sender x.value).result = .error .invalidEncryptedPayload ∧
        (decryptRelayData m sender x.value).manager = m) ∧
      (r < x.index → (decryptRelayData m sender x.value).result = .ok x.plaintext ∧
        (decryptRelayData m sender x.value).manager =
          m.withSessions (m.sessions.set sender (.counts key x.index n))) := by
  have hrnat : (UInt64.ofNat r).toNat = r := UInt64.toNat_ofNat_of_lt' hr
  have hxnat : (UInt64.ofNat x.index).toNat = x.index := UInt64.toNat_ofNat_of_lt' hindex
  obtain ⟨hstale, hfresh⟩ := decryptRelayData_genuine hdec hhex hs hx
  constructor
  · intro hle
    have hle : UInt64.ofNat x.index ≤ UInt64.ofNat r := by
      rw [UInt64.le_iff_toNat_le, hrnat, hxnat]
      exact hle
    refine ⟨hstale hle, ?_⟩
    rcases decryptRelayData_cases m sender x.value with
      ⟨hm, -⟩ | ⟨nonce, ciphertext, s, buffer, hp, hs', hd, -, hlt, -⟩
    · exact hm
    · -- the number in the buffer is the one that was encrypted
      obtain ⟨nonce', ciphertext', hvalue, henc⟩ := hx
      rw [hvalue, parseRelayData_relayObject hhex] at hp
      obtain ⟨rfl, rfl⟩ := Prod.mk.inj (Except.ok.inj hp)
      obtain rfl := Option.some.inj (hs.symm.trans hs')
      obtain rfl := Option.some.inj ((hdec _ _ _ _ _ henc).symm.trans hd)
      rw [List.take_left' (length_toBeBytes _), fromBeBytes_toBeBytes] at hlt
      exact absurd hlt (UInt64.not_lt.2 hle)
  · intro hlt
    have hlt : UInt64.ofNat r < UInt64.ofNat x.index := by
      rw [UInt64.lt_iff_toNat_lt, hrnat, hxnat]
      exact hlt
    exact hfresh hlt

/-! ## The two ends -/

/-- Two managers with a session, and how much either end has received and sent in it. -/
structure Linked (key : Key) (names : Bool → String) (received sent : Bool → Nat)
    (ends : Bool → P2PManager c) : Prop where
  identity : ∀ i, (ends i).identity = names i
  session : ∀ i, (ends i).sessions.get (names !i) = some (.counts key (received i) (sent i))

variable {key : Key} {names : Bool → String} {received sent : Bool → Nat}
  {ends : Bool → P2PManager c} {maxBuffer : Nat}

theorem Linked.update (h : Linked key names received sent ends) (i : Bool) (r n : Nat) :
    Linked key names (Function.update received i r) (Function.update sent i n)
      (Function.update ends i
        ((ends i).withSessions ((ends i).sessions.set (names !i) (.counts key r n)))) where
  identity := by
    intro j
    by_cases hj : j = i
    · subst hj
      rw [Function.update_self, P2PManager.withSessions_identity, h.identity]
    · rw [Function.update_of_ne hj, h.identity]
  session := by
    intro j
    by_cases hj : j = i
    · subst hj
      simp
    · simp [Function.update_of_ne hj, h.session]

/-- One end sends a text. -/
theorem Linked.send (h : Linked key names received sent ends) (hencrypts : c.Encrypts maxBuffer)
    (i : Bool) {text : String} (nonce : Nonce)
    (hfits : (Utf8.encode text.toList).length + 8 ≤ maxBuffer) :
    ∃ value, (encryptRelayPayload (ends i) (names !i) (Utf8.encode text.toList) nonce).result =
        .ok value ∧
      Linked key names received (Function.update sent i (sent i + 1)) (Function.update ends i
        (encryptRelayPayload (ends i) (names !i) (Utf8.encode text.toList) nonce).manager) ∧
      Genuine c key (makeRelayAd (names i) (names !i)) ⟨sent i, text, value⟩ := by
  obtain ⟨value, hresult, hmanager, hgenuine⟩ :=
    encryptRelayPayload_counts hencrypts (h.session i) nonce hfits
  have hnext := h.update i (received i) (sent i + 1)
  rw [Function.update_eq_self] at hnext
  rw [hmanager]
  rw [h.identity] at hgenuine
  exact ⟨value, hresult, hnext, hgenuine⟩

/-- One end receives a payload of the other. -/
theorem Linked.receive (h : Linked key names received sent ends) (hdec : c.DecryptsEncrypted)
    (hhex : c.HexRoundTrip) (i : Bool) (hr : received i < 2 ^ 64) {x : Sent}
    (hx : Genuine c key (makeRelayAd (names !i) (names i)) x) (hindex : x.index < 2 ^ 64) :
    let done := decryptRelayData (ends i) (names !i) x.value
    (x.index ≤ received i → done.result = .error .invalidEncryptedPayload ∧
        Linked key names received sent (Function.update ends i done.manager)) ∧
      (received i < x.index → done.result = .ok x.plaintext ∧
        Linked key names (Function.update received i x.index) sent
          (Function.update ends i done.manager)) := by
  intro done
  rw [← h.identity i] at hx
  obtain ⟨hstale, hfresh⟩ := decryptRelayData_counts hdec hhex (h.session i) hr hx hindex
  constructor
  · intro hle
    obtain ⟨hresult, hmanager⟩ := hstale hle
    refine ⟨hresult, ?_⟩
    show Linked key names received sent (Function.update ends i
      (decryptRelayData (ends i) (names !i) x.value).manager)
    rw [hmanager, Function.update_eq_self]
    exact h
  · intro hlt
    obtain ⟨hresult, hmanager⟩ := hfresh hlt
    have hnext := h.update i x.index (sent i)
    rw [Function.update_eq_self] at hnext
    refine ⟨hresult, ?_⟩
    show Linked key names _ sent (Function.update ends i
      (decryptRelayData (ends i) (names !i) x.value).manager)
    rw [hmanager]
    exact hnext

/-! ## A request -/

variable {m : P2PManager c} {reply : Value → Except TransportError (Option String)} {nonce : Nonce}
  {parsed data : Value} {sender text : String}

/-- A request that does not decrypt is not answered. -/
theorem handleRelay_error (hfrom : (parsed.get "from").bind Value.asStr = some sender)
    (hdata : parsed.get "data" = some data) (hknown : (m.sessions.get sender).isSome)
    {err : TransportError} (herr : (decryptRelayData m sender data).result = .error err) :
    (handleRelay m reply nonce parsed).manager = (decryptRelayData m sender data).manager ∧
      sentData (handleRelay m reply nonce parsed).sent = none := by
  simp only [handleRelay, hfrom, hdata, ensureRelaySender, hknown, if_true, herr]
  exact ⟨trivial, rfl⟩

/-- A request that decrypts is answered with what the tools answer. -/
theorem handleRelay_ok (hfrom : (parsed.get "from").bind Value.asStr = some sender)
    (hdata : parsed.get "data" = some data) (hknown : (m.sessions.get sender).isSome)
    (hok : (decryptRelayData m sender data).result = .ok text) :
    (answerTo c reply text = none →
      (handleRelay m reply nonce parsed).manager = (decryptRelayData m sender data).manager ∧
        sentData (handleRelay m reply nonce parsed).sent = none) ∧
    ∀ resp, answerTo c reply text = some resp → ∀ value,
      (encryptRelayPayload (decryptRelayData m sender data).manager sender
        (Utf8.encode resp.toList) nonce).result = .ok value →
      (handleRelay m reply nonce parsed).manager =
          (encryptRelayPayload (decryptRelayData m sender data).manager sender
            (Utf8.encode resp.toList) nonce).manager ∧
        sentData (handleRelay m reply nonce parsed).sent = some value := by
  cases hmsg : c.fromStr text with
  | none =>
      simp only [handleRelay, hfrom, hdata, ensureRelaySender, hknown, if_true, hok, answerTo, hmsg]
      simp [sentData]
  | some msg =>
      cases hreply : reply msg with
      | error err =>
          simp only [handleRelay, hfrom, hdata, ensureRelaySender, hknown, if_true, hok, answerTo,
            hmsg, hreply]
          simp [sentData]
      | ok answer =>
          cases answer with
          | none =>
              simp only [handleRelay, hfrom, hdata, ensureRelaySender, hknown, if_true, hok,
                answerTo, hmsg, hreply]
              simp [sentData]
          | some out =>
              simp only [handleRelay, hfrom, hdata, ensureRelaySender, hknown, if_true, hok,
                answerTo, hmsg, hreply]
              refine ⟨fun h => absurd h (by simp), ?_⟩
              intro resp hresp value hvalue
              obtain rfl := Option.some.inj hresp
              simp only [sendReply, hvalue]
              exact ⟨trivial, by simp [sentData, relayMessage, Value.get, List.lookup_cons]⟩

/-- One end serves a request of the other. -/
theorem Linked.serve (h : Linked key names received sent ends) (hdec : c.DecryptsEncrypted)
    (hhex : c.HexRoundTrip) (hencrypts : c.Encrypts maxBuffer) (i : Bool)
    (hr : received i < 2 ^ 64) {x : Sent}
    (hx : Genuine c key (makeRelayAd (names !i) (names i)) x) (hindex : x.index < 2 ^ 64)
    (reply : Value → Except TransportError (Option String)) (nonce : Nonce)
    (hfits : ∀ resp, answerTo c reply x.plaintext = some resp →
      (Utf8.encode resp.toList).length + 8 ≤ maxBuffer) :
    let handled := handleRelay (ends i) reply nonce (relayMessage (ends !i) (names i) x.value)
    let next := Function.update ends i handled.manager
    (x.index ≤ received i → sentData handled.sent = none ∧ Linked key names received sent next) ∧
    (received i < x.index → answerTo c reply x.plaintext = none →
      sentData handled.sent = none ∧
        Linked key names (Function.update received i x.index) sent next) ∧
    (received i < x.index → ∀ resp, answerTo c reply x.plaintext = some resp →
      ∃ value, sentData handled.sent = some value ∧
        Genuine c key (makeRelayAd (names i) (names !i)) ⟨sent i, resp, value⟩ ∧
        Linked key names (Function.update received i x.index)
          (Function.update sent i (sent i + 1)) next) := by
  intro handled next
  have hfrom : ((relayMessage (ends !i) (names i) x.value).get "from").bind Value.asStr =
      some (names !i) := by
    rw [← h.identity (!i)]
    simp [relayMessage, Value.get, List.lookup_cons, Value.asStr]
  have hdata : (relayMessage (ends !i) (names i) x.value).get "data" = some x.value := by
    simp [relayMessage, Value.get, List.lookup_cons]
  have hknown : ((ends i).sessions.get (names !i)).isSome := by
    rw [h.session]
    rfl
  obtain ⟨hstale, hfresh⟩ := h.receive hdec hhex i hr hx hindex
  refine ⟨?_, ?_, ?_⟩
  · intro hle
    obtain ⟨hresult, hlinked⟩ := hstale hle
    obtain ⟨hmanager, hsent⟩ := handleRelay_error hfrom hdata hknown hresult
    refine ⟨hsent, ?_⟩
    show Linked key names received sent (Function.update ends i handled.manager)
    rw [hmanager]
    exact hlinked
  · intro hlt hnone
    obtain ⟨hresult, hlinked⟩ := hfresh hlt
    obtain ⟨hmanager, hsent⟩ := (handleRelay_ok hfrom hdata hknown hresult).1 hnone
    refine ⟨hsent, ?_⟩
    show Linked key names _ sent (Function.update ends i handled.manager)
    rw [hmanager]
    exact hlinked
  · intro hlt resp hresp
    obtain ⟨hresult, hlinked⟩ := hfresh hlt
    obtain ⟨value, hvalue, hnext, hgenuine⟩ := hlinked.send hencrypts i nonce (hfits resp hresp)
    rw [Function.update_self, Function.update_idem] at hnext
    rw [Function.update_self] at hvalue
    obtain ⟨hmanager, hsent⟩ := (handleRelay_ok hfrom hdata hknown hresult).2 resp hresp value hvalue
    refine ⟨value, hsent, hgenuine, ?_⟩
    show Linked key names _ _ (Function.update ends i handled.manager)
    rw [hmanager]
    exact hnext

/-! ## The simulation -/

/-- The texts of the call are not too long. -/
structure Attempt.Fits (c : Crates) (maxBuffer : Nat) (x : Attempt) : Prop where
  request : (Utf8.encode x.request.toList).length + 8 ≤ maxBuffer
  answer : ∀ resp, answerTo c x.reply x.request = some resp →
    (Utf8.encode resp.toList).length + 8 ≤ maxBuffer

/-- What is counted allows for `n` more payloads: no number will be used up, and either end
has received less than the other has sent. -/
structure Counted (n : Nat) (warm : Bool → Bool) (received sent : Bool → Nat) : Prop where
  behind : ∀ i, received (!i) ≤ sent i - 1
  room : ∀ i, sent i + n < 2 ^ 64
  warm_eq : ∀ i, warm i = decide (0 < sent i)

/-- What holds of an end and of the other holds of both. -/
theorem both_ends {P : Bool → Prop} {i : Bool} (h : P i) (h' : P !i) : ∀ j, P j := by
  intro j
  by_cases hj : j = i
  · rwa [hj]
  · rwa [Bool.eq_not_of_ne hj]

namespace Counted

variable {n : Nat} {warm : Bool → Bool}

/-- One end has sent something, and the other has received some of what was sent before. -/
theorem sent_one (h : Counted (n + 1) warm received sent) {i : Bool} {r : Nat} (hr : r ≤ sent i) :
    Counted n (Function.update warm i true) (Function.update received (!i) r)
      (Function.update sent i (sent i + 1)) where
  behind := by
    have hother := h.behind (!i)
    refine both_ends (i := i) ?_ ?_
    · simp only [Function.update_self]
      omega
    · simpa [Function.update_of_ne] using hother
  room := by
    have hone := h.room i
    have hother := h.room (!i)
    refine both_ends (i := i) ?_ ?_
    · simp only [Function.update_self]
      omega
    · simp only [Function.update_of_ne (Bool.not_ne_self i)]
      omega
  warm_eq := by
    refine both_ends (i := i) ?_ ?_
    · simp
    · simpa [Function.update_of_ne] using h.warm_eq (!i)

theorem mono (h : Counted (n + 1) warm received sent) : Counted n warm received sent where
  behind := h.behind
  room := by
    intro i
    have := h.room i
    omega
  warm_eq := h.warm_eq

theorem received_le (h : Counted n warm received sent) (i : Bool) : received (!i) ≤ sent i := by
  have := h.behind i
  omega

theorem sent_lt (h : Counted n warm received sent) (i : Bool) : sent i < 2 ^ 64 := by
  have := h.room i
  omega

theorem received_lt (h : Counted n warm received sent) (i : Bool) : received i < 2 ^ 64 := by
  have hle := h.received_le (!i)
  rw [Bool.not_not] at hle
  exact Nat.lt_of_le_of_lt hle (h.sent_lt _)

theorem sent_eq_zero (h : Counted n warm received sent) {i : Bool} (hi : warm i = false) :
    sent i = 0 := by
  rw [h.warm_eq] at hi
  simpa using hi

/-- What comes after something else that was sent is new. -/
theorem received_lt_sent (h : Counted n warm received sent) {i : Bool} (hi : warm i = true) :
    received (!i) < sent i := by
  rw [h.warm_eq, decide_eq_true_eq] at hi
  have := h.behind i
  omega

end Counted

/-- For `n` more calls, the two ends behave as a plain line. -/
def Behaves (key : Key) (names : Bool → String) (n : Nat) (ends : Bool → P2PManager c)
    (warm : Bool → Bool) : Prop :=
  ∃ received sent, Linked key names received sent ends ∧ Counted (2 * n) warm received sent

/-- A call keeps the two ends behaving as a plain line, and is answered as there. -/
theorem call_steps (hdec : c.DecryptsEncrypted) (hhex : c.HexRoundTrip)
    (hencrypts : c.Encrypts maxBuffer) (key : Key) (names : Bool → String) :
    Simulation.Steps (call (c := c)) (plainCall c) (Attempt.Fits c maxBuffer)
      (Behaves key names) := by
  rintro n ends warm x hx ⟨received, sent, hlinked, h⟩
  obtain ⟨value, hvalue, hasked, hgenuine⟩ :=
    hlinked.send hencrypts x.caller x.there hx.request
  unfold call plainCall
  simp only [hlinked.identity, hvalue, hasked.identity]
  generalize Function.update ends x.caller (encryptRelayPayload (ends x.caller) (names !x.caller)
    (Utf8.encode x.request.toList) x.there).manager = asked at hasked
  -- what is counted if nothing is received
  have hlost := h.sent_one (h.received_le x.caller)
  rw [Function.update_eq_self] at hlost
  by_cases harrives : x.arrives = false
  · rw [if_pos harrives, if_pos (.inl harrives)]
    exact ⟨rfl, _, _, hasked, hlost.mono⟩
  have hserve := hasked.serve hdec hhex hencrypts (!x.caller) (h.received_lt _)
    (x := ⟨sent x.caller, x.request, value⟩) (by rwa [Bool.not_not]) (h.sent_lt _) x.reply x.back
    hx.answer
  simp only [Bool.not_not] at hserve
  obtain ⟨hstale, hsilent, hanswered⟩ := hserve
  rw [if_neg harrives]
  by_cases hwarm : warm x.caller = false
  · -- the first request is turned away
    have hzero := h.sent_eq_zero hwarm
    obtain ⟨hsent, hserved⟩ := hstale (by omega)
    rw [if_pos (.inr hwarm)]
    simp only [hsent]
    exact ⟨trivial, _, _, hserved, hlost.mono⟩
  rw [Bool.not_eq_false] at hwarm harrives
  have hfresh := h.received_lt_sent hwarm
  have hgot := h.sent_one (Nat.le_refl (sent x.caller))
  rw [if_neg (by simp [harrives, hwarm])]
  cases hanswer : answerTo c x.reply x.request with
  | none =>
      obtain ⟨hsent, hserved⟩ := hsilent hfresh hanswer
      simp only [hsent]
      exact ⟨trivial, _, _, hserved, hgot.mono⟩
  | some resp =>
      obtain ⟨back, hsent, hback, hserved⟩ := hanswered hfresh resp hanswer
      simp only [hsent, hserved.identity]
      have hside : (!x.caller) ≠ x.caller := Bool.not_ne_self x.caller
      have hreply := hgot.sent_one (hgot.received_le (!x.caller))
      rw [Function.update_eq_self] at hreply
      by_cases hreturns : x.returns = false
      · rw [if_pos hreturns, if_neg (by simp [hreturns])]
        exact ⟨rfl, _, _, hserved, hreply⟩
      rw [if_neg hreturns]
      rw [Bool.not_eq_false] at hreturns
      have hreceive := hserved.receive hdec hhex x.caller (hgot.received_lt _) hback
        (hgot.sent_lt _)
      obtain ⟨hstale, hfresh⟩ := hreceive
      by_cases hwarm' : warm (!x.caller) = false
      · -- the first answer is turned away
        have hzero := hgot.sent_eq_zero (i := !x.caller) (by rwa [Function.update_of_ne hside])
        obtain ⟨hresult, hfinal⟩ := hstale (by simp only [hzero]; omega)
        rw [if_neg (by simp [hwarm']), hresult]
        exact ⟨rfl, _, _, hfinal, hreply⟩
      · rw [Bool.not_eq_false] at hwarm'
        have hlt := hgot.received_lt_sent (i := !x.caller) (by rwa [Function.update_of_ne hside])
        rw [Bool.not_not] at hlt
        obtain ⟨hresult, hfinal⟩ := hfresh hlt
        rw [if_pos ⟨hreturns, hwarm'⟩, hresult]
        have hcounted := hgot.sent_one (i := !x.caller) (Nat.le_refl _)
        rw [Bool.not_not] at hcounted
        exact ⟨rfl, _, _, hfinal, hcounted⟩

/-! ## Whole runs -/

/-- Managers with fresh sessions behave as a line over which nothing was sent. -/
theorem behaves_new (hshared : c.SharedComm) (hhex : c.HexRoundTrip) {secret : Bool → Key}
    (hends : ∀ i, establishSession (.new c (secret i)) (P2PManager.new c (secret !i)).identity =
      .ok (ends i)) {n : Nat} (hn : 2 * n < 2 ^ 64) :
    ∃ key names, Behaves key names n ends fun _ => false := by
  obtain ⟨key, -, -, hfalse, htrue⟩ :=
    establishSession_fresh hshared hhex rfl rfl (hends false) (hends true)
  refine ⟨key, fun i => (ends i).identity, fun _ => 0, fun _ => 0, ⟨fun _ => rfl, ?_⟩, ?_⟩
  · intro i
    cases i with
    | false => exact hfalse
    | true => exact htrue
  · exact ⟨fun _ => Nat.zero_le _, fun _ => by omega, fun _ => rfl⟩

/-- A line over which something was sent in both directions loses nothing any more. -/
theorem plain_warm {warm : Bool → Bool} (hwarm : ∀ i, warm i = true) {xs : List Attempt}
    (hxs : ∀ x ∈ xs, x.arrives = true ∧ x.returns = true ∧
      (answerTo c x.reply x.request).isSome) :
    Simulation.outputs (plainCall c) warm xs = xs.map fun x => answerTo c x.reply x.request := by
  induction xs generalizing warm with
  | nil => rfl
  | cons x xs ih =>
      obtain ⟨harrives, hreturns, hanswer⟩ := hxs x List.mem_cons_self
      obtain ⟨resp, hresp⟩ := Option.isSome_iff_exists.1 hanswer
      have hstays : ∀ i j, Function.update (Function.update warm i true) j true = warm := by
        intro i j
        rw [← hwarm i, Function.update_eq_self, hwarm i, ← hwarm j, Function.update_eq_self]
      have hcall : plainCall c warm x = (warm, some resp) := by
        simp [plainCall, harrives, hreturns, hwarm, hresp, hstays]
      rw [Simulation.outputs_cons, hcall, List.map_cons, hresp,
        ih hwarm fun y hy => hxs y (List.mem_cons_of_mem x hy)]

/-- From one end, the first two calls are lost. -/
theorem plain_cold {i : Bool} {xs : List Attempt}
    (hxs : ∀ x ∈ xs, x.caller = i ∧ x.arrives = true ∧ x.returns = true ∧
      (answerTo c x.reply x.request).isSome) :
    Simulation.outputs (plainCall c) (fun _ => false) xs =
      (xs.take 2).map (fun _ => none) ++
        (xs.drop 2).map fun x => answerTo c x.reply x.request := by
  have hcall : ∀ x ∈ xs, ∃ resp, answerTo c x.reply x.request = some resp := fun x hx =>
    Option.isSome_iff_exists.1 (hxs x hx).2.2.2
  cases xs with
  | nil => rfl
  | cons x xs =>
      obtain ⟨rfl, hx, -, -⟩ := hxs x List.mem_cons_self
      have hfirst : plainCall c (fun _ => false) x =
          (Function.update (fun _ => false) x.caller true, none) := by simp [plainCall]
      rw [Simulation.outputs_cons, hfirst]
      cases xs with
      | nil => rfl
      | cons y ys =>
          have hy : y ∈ x :: y :: ys := List.mem_cons_of_mem x List.mem_cons_self
          obtain ⟨hcaller, harrives, hreturns, -⟩ := hxs y hy
          obtain ⟨resp, hresp⟩ := hcall y hy
          have hsecond : plainCall c (Function.update (fun _ => false) x.caller true) y =
              (fun _ => true, none) := by
            have hboth : Function.update (Function.update (fun _ => false) x.caller true)
                (!x.caller) true = fun _ => true := by
              funext j
              cases j <;> cases x.caller <;> rfl
            simp [plainCall, hcaller, harrives, hresp, hboth]
          have hrest : Simulation.outputs (plainCall c) (fun _ => true) ys =
              ys.map fun x => answerTo c x.reply x.request :=
            plain_warm (fun _ => rfl)
              fun z hz => (hxs z (List.mem_cons_of_mem x (List.mem_cons_of_mem y hz))).2
          rw [Simulation.outputs_cons, hsecond, hrest]
          rfl

/-- **Calls over the relay are calls.**  In every run between two ends that have just met,
whoever calls and whatever gets lost, a call gives what it gives over a plain line: the answer
of the other end's tools to just this request, except for what is sent first in either
direction.  If nothing gets lost, all calls from one end but the first two are answered. -/
theorem remote_calls (hshared : c.SharedComm) (hdec : c.DecryptsEncrypted) (hhex : c.HexRoundTrip)
    (hencrypts : c.Encrypts maxBuffer) {secret : Bool → Key}
    (hends : ∀ i, establishSession (.new c (secret i)) (P2PManager.new c (secret !i)).identity =
      .ok (ends i))
    {xs : List Attempt} (hlen : xs.length < 2 ^ 63) (hfits : ∀ x ∈ xs, x.Fits c maxBuffer) :
    Simulation.outputs call ends xs = Simulation.outputs (plainCall c) (fun _ => false) xs ∧
      ∀ i, (∀ x ∈ xs, x.caller = i ∧ x.arrives = true ∧ x.returns = true ∧
          (answerTo c x.reply x.request).isSome) →
        Simulation.outputs call ends xs = (xs.take 2).map (fun _ => none) ++
          (xs.drop 2).map fun x => answerTo c x.reply x.request := by
  obtain ⟨key, names, hnew⟩ := behaves_new hshared hhex hends (n := xs.length) (by omega)
  have houtputs : Simulation.outputs call ends xs =
      Simulation.outputs (plainCall c) (fun _ => false) xs :=
    Simulation.outputs_eq (call_steps hdec hhex hencrypts key names) hfits hnew
  refine ⟨houtputs, ?_⟩
  intro i hxs
  rw [houtputs, plain_cold hxs]

namespace Reference

theorem reference_encrypts (maxBuffer : Nat) : reference.Encrypts maxBuffer := by
  intro key nonce ad buffer _
  show ∃ ciphertext, encryptInPlace key nonce ad buffer = some ciphertext
  unfold encryptInPlace
  split
  · next p _ => exact ⟨p.2, rfl⟩
  · exact ⟨_, rfl⟩

/-- The first manager asks, and the tools of the second answer with an empty object. -/
def asking : Attempt :=
  ⟨false, Reference.text offer, fun _ => .ok (some request), Reference.nonce, Reference.nonce,
    true, true⟩

/-- Three calls, of which the third is answered. -/
theorem remote_calls_third :
    Simulation.outputs call (fun i => cond i managerB managerA) [asking, asking, asking] =
      [none, none, some request] := by
  have hanswer : answerTo reference asking.reply asking.request = some request := by
    simp only [answerTo, asking, fromStr_offer]
  have hends : ∀ i, establishSession (.new reference (cond i secretB secretA))
      (P2PManager.new reference (cond (!i) secretB secretA)).identity =
        .ok (cond i managerB managerA) := by
    intro i
    cases i with
    | false => exact establish_managerA
    | true => exact establish_managerB
  have hfits : asking.Fits reference 1024 := by
    refine ⟨by decide +kernel, ?_⟩
    intro resp hresp
    obtain rfl := Option.some.inj (hanswer.symm.trans hresp)
    decide +kernel
  have hall : ∀ x ∈ [asking, asking, asking], x.Fits reference 1024 := by simp [hfits]
  have hcalls := (remote_calls reference_shared reference_decrypts reference_hex
    (reference_encrypts 1024) hends (by decide) hall).2 false (by simp [hanswer]; decide)
  rw [hcalls]
  simp [hanswer]

end Reference

end Transport
end FolkAround
