import FolkAround.Lib.Trace
import FolkAround.Transport.Network

/-!
# Authenticity and freshness of relays

The signalling server is hostile, one key serves both directions of a session, and a
handshake can be repeated at any time.  Still, what a manager accepts from an honest
peer was encrypted by that peer for it, and is accepted once and in order.

* `encryptions`, `acceptedSeqno` — reading the trace: how often a manager used the
  cipher for a peer, and the number under which an entry was accepted.
* `EntryOk` — what is known of a call, given the calls before it.
* `Tracked` — the invariant: the counters of all sessions agree with the trace.
* `IdealAead` — what is assumed of the cipher.
* `relay_authentic` — the result.
-/

namespace FolkAround
namespace Transport

variable {c : Crates} {ι : Type} [DecidableEq ι]

/-! ## Reading the trace -/

/-- The entry is a use of the cipher to encrypt for a peer. -/
def isEncryption (i : ι) (peer : String) : ι × Call → Bool
  | (j, .encrypt p _ _ (some _)) => j = i && p = peer
  | _ => false

/-- How often a manager used the cipher to encrypt for a peer. -/
def encryptions (i : ι) (peer : String) (trace : List (ι × Call)) : Nat :=
  trace.countP (isEncryption i peer)

/-- The sequence number in front of a decrypted payload. -/
def seqnoOf (buffer : Bytes) : UInt64 := fromBeBytes (buffer.take 8)

/-- The number under which an entry was accepted by a manager from a sender. -/
def acceptedSeqno (i : ι) (sender : String) : ι × Call → Option UInt64
  | (j, .decrypt p _ (.ok _) (some ⟨_, _, _, _, some buffer⟩)) =>
    if j = i ∧ p = sender then some (seqnoOf buffer) else none
  | _ => none

theorem encryptions_concat (i : ι) (peer : String) (trace : List (ι × Call)) (e : ι × Call) :
    encryptions i peer (trace ++ [e]) =
      encryptions i peer trace + if isEncryption i peer e then 1 else 0 := by
  rw [encryptions, List.countP_append, List.countP_singleton, ← encryptions]

theorem encryptions_concat_of_not {i : ι} {peer : String} {e : ι × Call}
    (h : isEncryption i peer e = false) (trace : List (ι × Call)) :
    encryptions i peer (trace ++ [e]) = encryptions i peer trace := by
  rw [encryptions_concat, h]
  rfl

/-! ## What is known of a call -/

/-- A call and the calls before it: what was encrypted carries the next number of its
session, what was accepted a higher one than all that was accepted before. -/
def EntryOk (c : Crates) (identity : ι → String) (before : List (ι × Call)) : ι × Call → Prop
  | (i, .encrypt peer plaintext result (some u)) =>
    u.ad = makeRelayAd (identity i) peer ∧
      u.input = toBeBytes (UInt64.ofNat (encryptions i peer before)) ++ plaintext ∧
      ∀ ciphertext, u.output = some ciphertext →
        c.encryptInPlace u.key u.nonce u.ad u.input = some ciphertext ∧ ∃ value, result = .ok value
  | (i, .decrypt sender _ (.ok text) cipher) =>
    ∃ u buffer, cipher = some u ∧ u.output = some buffer ∧ u.ad = makeRelayAd sender (identity i) ∧
      c.decryptInPlace u.key u.nonce u.ad u.input = some buffer ∧
      Utf8.fromUtf8 (buffer.drop 8) = some text.toList ∧
      ∀ e ∈ before, ∀ seqno, acceptedSeqno i sender e = some seqno → seqno < seqnoOf buffer
  | _ => True

/-- The counters of the sessions agree with the trace. -/
structure Tracked (identity : ι → String) (w : World c ι) : Prop where
  named : ∀ i, (w.managers i).identity = identity i
  counted : ∀ i peer s, (w.managers i).sessions.get peer = some s →
    s.txSeqno = UInt64.ofNat (encryptions i peer w.trace)
  uncounted : ∀ i peer, (w.managers i).sessions.get peer = none → encryptions i peer w.trace = 0
  received : ∀ e ∈ w.trace, ∀ i sender seqno, acceptedSeqno i sender e = some seqno →
    ∃ s, (w.managers i).sessions.get sender = some s ∧ seqno ≤ s.rxSeqno
  entries : Trace.EachAfter (EntryOk c identity) w.trace

theorem tracked_start (secret : ι → Key) :
    Tracked (fun i => (P2PManager.new c (secret i)).identity) (World.start c secret) where
  named _ := rfl
  counted i peer s h := by simp [World.start, P2PManager.new] at h
  uncounted _ _ _ := rfl
  received e h := by simp [World.start] at h
  entries := Trace.eachAfter_nil _

/-! ## Every call keeps track -/

/-- A new session starts at zero, and so does its count. -/
theorem Tracked.establish {identity : ι → String} {w : World c ι} (h : Tracked identity w) {i : ι}
    {peer : String} {m : P2PManager c} (hm : establishSession (w.managers i) peer = .ok m) :
    Tracked identity (w.update i m []) := by
  obtain ⟨_, key, _, _, hsame, hget⟩ := establishSession_ok hm
  have htrace : (w.update i m []).trace = w.trace := by simp [World.update]
  refine ⟨fun j => ?_, fun j p s hs => ?_, fun j p hs => ?_, fun e he j p q hq => ?_, ?_⟩
  · by_cases hji : j = i
    · subst hji
      rw [World.update_managers_self, hsame, P2PManager.withSessions_identity, h.named]
    · rw [World.update_managers_of_ne hji, h.named]
  · rw [htrace]
    by_cases hji : j = i
    · subst hji
      rw [World.update_managers_self, hget] at hs
      split at hs
      · next hp => rw [h.uncounted j p hp.2, ← Option.some.inj hs]; rfl
      · exact h.counted j p s hs
    · rw [World.update_managers_of_ne hji] at hs
      exact h.counted j p s hs
  · rw [htrace]
    by_cases hji : j = i
    · subst hji
      rw [World.update_managers_self, hget] at hs
      split at hs
      · exact absurd hs (by simp)
      · exact h.uncounted j p hs
    · rw [World.update_managers_of_ne hji] at hs
      exact h.uncounted j p hs
  · rw [htrace] at he
    obtain ⟨s, hs, hle⟩ := h.received e he j p q hq
    refine ⟨s, ?_, hle⟩
    by_cases hji : j = i
    · subst hji
      rw [World.update_managers_self, hget, hs, if_neg (fun hc => absurd hc.2 (by simp))]
    · rw [World.update_managers_of_ne hji, hs]
  · rw [htrace]
    exact h.entries

/-- A call that changes no session, and is neither a use of the cipher to encrypt nor
accepted, adds an entry. -/
theorem Tracked.idle {identity : ι → String} {w : World c ι} (h : Tracked identity w) (i : ι)
    {call : Call} (hcount : ∀ j p, isEncryption j p (i, call) = false)
    (hnot : ∀ j p, acceptedSeqno j p (i, call) = none)
    (hok : EntryOk c identity w.trace (i, call)) :
    Tracked identity (w.update i (w.managers i) [call]) := by
  have hmanagers : (w.update i (w.managers i) [call]).managers = w.managers := by
    simp [World.update]
  have htrace : (w.update i (w.managers i) [call]).trace = w.trace ++ [(i, call)] := rfl
  refine ⟨fun j => ?_, fun j p s hs => ?_, fun j p hs => ?_, fun e he j p q hq => ?_, ?_⟩
  · rw [hmanagers, h.named]
  · rw [hmanagers] at hs
    rw [htrace, encryptions_concat_of_not (hcount j p), h.counted j p s hs]
  · rw [hmanagers] at hs
    rw [htrace, encryptions_concat_of_not (hcount j p), h.uncounted j p hs]
  · rw [hmanagers]
    rw [htrace, List.mem_append, List.mem_singleton] at he
    rcases he with he | rfl
    · exact h.received e he j p q hq
    · rw [hnot] at hq
      exact absurd hq (by simp)
  · rw [htrace]
    exact Trace.eachAfter_concat h.entries hok

/-- A call that moves the counters of one session adds an entry: the one for sending
by a use of the cipher to encrypt, the one for receiving up to what it accepts. -/
theorem Tracked.advance {identity : ι → String} {w : World c ι} (h : Tracked identity w) {i : ι}
    {peer : String} {s t : Session} {call : Call}
    (hs : (w.managers i).sessions.get peer = some s)
    (hcount : ∀ j p, isEncryption j p (i, call) = true → j = i ∧ p = peer)
    (htx : t.txSeqno = if isEncryption i peer (i, call) then s.txSeqno + 1 else s.txSeqno)
    (hrx : s.rxSeqno ≤ t.rxSeqno)
    (haccepted : ∀ j p q, acceptedSeqno j p (i, call) = some q → j = i ∧ p = peer ∧ q ≤ t.rxSeqno)
    (hok : EntryOk c identity w.trace (i, call)) :
    Tracked identity
      (w.update i ((w.managers i).withSessions ((w.managers i).sessions.set peer t)) [call]) := by
  have hget (j : ι) (p : String) :
      ((w.update i ((w.managers i).withSessions ((w.managers i).sessions.set peer t))
        [call]).managers j).sessions.get p =
      if j = i ∧ p = peer then some t else (w.managers j).sessions.get p := by
    by_cases hji : j = i
    · subst hji
      rw [World.update_managers_self, P2PManager.withSessions_sessions, OrdMap.get_set]
      by_cases hp : peer = p
      · simp [hp]
      · simp [hp, Ne.symm hp]
    · rw [World.update_managers_of_ne hji, if_neg (fun hc => hji hc.1)]
  have hother (j : ι) (p : String) (hne : ¬ (j = i ∧ p = peer)) :
      isEncryption j p (i, call) = false := by
    cases hc : isEncryption j p (i, call) with
    | false => rfl
    | true => exact absurd (hcount j p hc) hne
  have htrace : (w.update i ((w.managers i).withSessions ((w.managers i).sessions.set peer t))
      [call]).trace = w.trace ++ [(i, call)] := rfl
  refine ⟨fun j => ?_, fun j p u hu => ?_, fun j p hu => ?_, fun e he j p q hq => ?_, ?_⟩
  · by_cases hji : j = i
    · subst hji
      rw [World.update_managers_self, P2PManager.withSessions_identity, h.named]
    · rw [World.update_managers_of_ne hji, h.named]
  · rw [hget] at hu
    rw [htrace]
    split at hu
    · next hjp =>
        obtain ⟨rfl, rfl⟩ := hjp
        rw [← Option.some.inj hu, htx, encryptions_concat, h.counted j p s hs]
        split
        · simp
        · rfl
    · next hjp => rw [encryptions_concat_of_not (hother j p hjp), h.counted j p u hu]
  · rw [hget] at hu
    rw [htrace]
    split at hu
    · exact absurd hu (by simp)
    · next hjp => rw [encryptions_concat_of_not (hother j p hjp), h.uncounted j p hu]
  · rw [hget]
    rw [htrace, List.mem_append, List.mem_singleton] at he
    rcases he with he | rfl
    · obtain ⟨u, hu, hle⟩ := h.received e he j p q hq
      by_cases hjp : j = i ∧ p = peer
      · obtain ⟨rfl, rfl⟩ := hjp
        rw [hs, Option.some.injEq] at hu
        exact ⟨t, if_pos ⟨rfl, rfl⟩, UInt64.le_trans (hu ▸ hle) hrx⟩
      · exact ⟨u, by rw [if_neg hjp, hu], hle⟩
    · obtain ⟨hj, hp, hle⟩ := haccepted j p q hq
      exact ⟨t, if_pos ⟨hj, hp⟩, hle⟩
  · rw [htrace]
    exact Trace.eachAfter_concat h.entries hok

theorem Tracked.encrypt {identity : ι → String} {w : World c ι} (h : Tracked identity w) (i : ι)
    (peer : String) (plaintext : Bytes) (nonce : Nonce) :
    Tracked identity (step w (.encrypt i peer plaintext nonce)) := by
  simp only [step]
  rcases encryptRelayPayload_cases (w.managers i) peer plaintext nonce with
    ⟨-, hdone⟩ | ⟨s, output, hs, hout, hdone⟩
  · rw [hdone]
    exact h.idle i (fun _ _ => rfl) (fun _ _ => rfl) trivial
  · rw [hdone]
    refine h.advance hs (fun j p hc => ?_) ?_ (UInt64.le_refl _) (fun j p q hq => ?_) ?_
    · simp only [isEncryption, Bool.and_eq_true, decide_eq_true_eq] at hc
      exact ⟨hc.1.symm, hc.2.symm⟩
    · simp [isEncryption]
    · exact absurd hq (by simp [acceptedSeqno])
    · refine ⟨by rw [h.named], by rw [h.counted i peer s hs], fun ciphertext hct => ?_⟩
      simp only at hct
      refine ⟨by rw [← hout, hct], relayObject c nonce ciphertext, ?_⟩
      rw [hct]

theorem Tracked.decrypt {identity : ι → String} {w : World c ι} (h : Tracked identity w) (i : ι)
    (sender : String) (data : Value) : Tracked identity (step w (.decrypt i sender data)) := by
  simp only [step]
  rcases decryptRelayData_cases (w.managers i) sender data with
    ⟨hm, err, hresult⟩ | ⟨nonce, ciphertext, s, buffer, -, hs, hdec, -, hlt, hdone⟩
  · rw [hm, hresult]
    exact h.idle i (fun _ _ => rfl) (fun _ _ => rfl) trivial
  · rw [hdone]
    have hnot (j : ι) (p : String) (result : Except TransportError String)
        (cipher : Option CipherUse) :
        isEncryption j p (i, Call.decrypt sender data result cipher) = false := rfl
    refine h.advance hs (fun j p hc => absurd hc (by simp [hnot])) (by simp [hnot])
      (UInt64.le_of_lt hlt) (fun j p q hq => ?_) ?_
    · cases htext : Utf8.fromUtf8 (buffer.drop 8) with
      | none =>
          rw [htext] at hq
          exact absurd hq (by simp [acceptedSeqno])
      | some text =>
          rw [htext] at hq
          simp only [acceptedSeqno, Option.ite_none_right_eq_some, Option.some.injEq] at hq
          exact ⟨hq.1.1.symm, hq.1.2.symm, UInt64.le_of_eq hq.2.symm⟩
    · cases htext : Utf8.fromUtf8 (buffer.drop 8) with
      | none => trivial
      | some text =>
          refine ⟨_, buffer, rfl, rfl, by rw [h.named], hdec, by rw [htext, String.toList_ofList],
            fun e he q hq => ?_⟩
          obtain ⟨u, hu, hle⟩ := h.received e he i sender q hq
          rw [hs, Option.some.injEq] at hu
          exact UInt64.lt_of_le_of_lt (hu ▸ hle) hlt

theorem tracked_run (secret : ι → Key) (as : List (Action ι)) :
    Tracked (fun i => (P2PManager.new c (secret i)).identity)
      (Runs.run step (World.start c secret) as) := by
  refine run_invariant_of_calls (fun w a ha h => ?_) (tracked_start secret) as
  cases a with
  | signal i raw reply nonce => exact absurd ha (by simp [Action.isCall])
  | establish i peer =>
      simp only [step]
      split
      · next m hm => exact h.establish hm
      · exact h
  | encrypt i peer plaintext nonce => exact h.encrypt i peer plaintext nonce
  | decrypt i sender data => exact h.decrypt i sender data

/-! ## The associated data -/

theorem hexEncode_injective (hhex : c.HexRoundTrip) : Function.Injective c.hexEncode := by
  intro a b h
  have hdecode := congrArg c.hexDecode h
  rw [hhex, hhex] at hdecode
  exact Option.some.inj hdecode

theorem length_identity (htwo : c.HexTwoDigits) (m : P2PManager c) :
    m.identity.toList.length = 64 := by
  rw [P2PManager.identity, htwo, List.Vector.toList_length]

/-- Between identities, the associated data says who sends and to whom. -/
theorem makeRelayAd_inj {a a' b b' : String} (hlen : a.toList.length = a'.toList.length)
    (h : makeRelayAd a b = makeRelayAd a' b') : a = a' ∧ b = b' := by
  simp only [makeRelayAd, ← Utf8.encode_append, List.append_assoc] at h
  have hchars := List.append_cancel_left (Utf8.encode_injective h)
  obtain ⟨ha, hrest⟩ := List.append_inj hchars hlen
  exact ⟨String.toList_inj.1 ha, String.toList_inj.1 (List.append_cancel_left hrest)⟩

/-! ## The result -/

/-- The `n`-th call is an acceptance: manager `r` read a text from the identity of
manager `s`. -/
def AcceptedAt (w : World c ι) (n : Nat) (r s : ι) (text : String) : Prop :=
  ∃ data cipher, w.trace[n]? = some (r, .decrypt (w.managers s).identity data (.ok text) cipher)

/-- The `n`-th call is an encryption: manager `s` encrypted a text for the identity of
manager `r`. -/
def EncryptedAt (w : World c ι) (n : Nat) (s r : ι) (text : String) : Prop :=
  ∃ value cipher, w.trace[n]? =
    some (s, .encrypt (w.managers r).identity (Utf8.encode text.toList) (.ok value) cipher)

/-- Decryption under the key two managers share succeeds only on what was encrypted
before under the same key, nonce and associated data. -/
def IdealAead (w : World c ι) : Prop :=
  ∀ (n : Nat) (r s : ι) data result (u : CipherUse) buffer,
    w.trace[n]? = some (r, Call.decrypt (w.managers s).identity data result (some u)) →
      u.output = some buffer →
      ∃ m < n, ∃ i peer plaintext result', ∃ v : CipherUse,
        w.trace[m]? = some (i, Call.encrypt peer plaintext result' (some v)) ∧ v.key = u.key ∧
          v.nonce = u.nonce ∧ v.ad = u.ad ∧ v.output = some u.input

/-- An acceptance and the encryption it stems from, with its number in the session. -/
theorem Tracked.stems {w : World c ι} {identity : ι → String} (h : Tracked identity w)
    (hdec : c.DecryptsEncrypted) (htwo : c.HexTwoDigits)
    (hdistinct : Function.Injective fun i => (w.managers i).identity) (hideal : IdealAead w)
    {n : Nat} {r s : ι} {text : String} (hn : AcceptedAt w n r s text) :
    ∃ m < n, EncryptedAt w m s r text ∧ ∃ e, w.trace[n]? = some e ∧
      acceptedSeqno r (w.managers s).identity e =
        some (UInt64.ofNat (encryptions s (w.managers r).identity (w.trace.take m))) := by
  obtain ⟨data, cipher, hentry⟩ := hn
  obtain ⟨u, buffer, rfl, hout, had, hopen, htext, -⟩ := h.entries.getElem hentry
  obtain ⟨m, hmn, i, peer, plaintext, result', v, hm, hkey, hnonce, hvad, hvout⟩ :=
    hideal n r s data _ u buffer hentry hout
  obtain ⟨hvad', hinput, hsealed⟩ := h.entries.getElem hm
  obtain ⟨henc, value, rfl⟩ := hsealed _ hvout
  -- the associated data names the sender and the receiver
  rw [← h.named] at had hvad'
  obtain ⟨hi, hpeer⟩ := makeRelayAd_inj
    (by rw [length_identity htwo, length_identity htwo]) (hvad'.symm.trans (hvad.trans had))
  obtain rfl : i = s := hdistinct hi
  subst hpeer
  -- and what was decrypted is what was encrypted
  have hsame := hdec _ _ _ _ _ henc
  rw [hkey, hnonce, hvad, hopen, Option.some.injEq] at hsame
  rw [hsame, hinput, List.drop_left' (length_toBeBytes _), Utf8.fromUtf8_eq_some_iff] at htext
  subst htext
  refine ⟨m, hmn, ⟨value, some v, hm⟩, _, hentry, ?_⟩
  obtain ⟨key, nonce, ad, input, output⟩ := u
  simp only at hout
  subst hout
  simp only [acceptedSeqno, and_self, if_true, seqnoOf]
  rw [hsame, hinput, List.take_left' (length_toBeBytes _), fromBeBytes_toBeBytes]

/-- **Authenticity and freshness.**  On a hostile network, every acceptance from an
honest manager stems from an encryption of the same text by that manager for this one;
acceptances from one sender stem from its encryptions in their order, and no two
acceptances anywhere stem from the same encryption. -/
theorem relay_authentic (hdec : c.DecryptsEncrypted) (hhex : c.HexRoundTrip)
    (htwo : c.HexTwoDigits) (secret : ι → Key)
    (hdistinct : Function.Injective fun i => c.x25519Public (secret i)) (as : List (Action ι))
    (hideal : IdealAead (Runs.run step (World.start c secret) as))
    (hcount : ∀ i peer,
      encryptions i peer (Runs.run step (World.start c secret) as).trace < 2 ^ 64) :
    let w := Runs.run step (World.start c secret) as
    ∃ f : Nat → Nat,
      (∀ n r s text, AcceptedAt w n r s text → f n < n ∧ EncryptedAt w (f n) s r text) ∧
      (∀ n n' r s text text', n < n' → AcceptedAt w n r s text → AcceptedAt w n' r s text' →
        f n < f n') ∧
      ∀ n n' r r' s s' text text', AcceptedAt w n r s text → AcceptedAt w n' r' s' text' →
        f n = f n' → n = n' := by
  intro w
  have hw : Tracked (fun i => (P2PManager.new c (secret i)).identity) w := tracked_run secret as
  have hidentity : Function.Injective fun i => (w.managers i).identity := by
    intro i j hij
    simp only [hw.named] at hij
    exact hdistinct (List.Vector.toList_injective (hexEncode_injective hhex hij))
  have hunique {n r s text r' s' text'} (h : AcceptedAt w n r s text)
      (h' : AcceptedAt w n r' s' text') : r = r' ∧ s = s' ∧ text = text' := by
    obtain ⟨data, cipher, he⟩ := h
    obtain ⟨data', cipher', he'⟩ := h'
    rw [he] at he'
    simp only [Option.some.injEq, Prod.mk.injEq, Call.decrypt.injEq, Except.ok.injEq] at he'
    exact ⟨he'.1, hidentity he'.2.1, he'.2.2.2.1⟩
  -- one choice of an encryption for every acceptance
  have hchoice : ∀ n, ∃ m, ∀ r s text, AcceptedAt w n r s text →
      m < n ∧ EncryptedAt w m s r text ∧ ∃ e, w.trace[n]? = some e ∧
        acceptedSeqno r (w.managers s).identity e =
          some (UInt64.ofNat (encryptions s (w.managers r).identity (w.trace.take m))) := by
    intro n
    by_cases hn : ∃ r s text, AcceptedAt w n r s text
    · obtain ⟨r, s, text, h⟩ := hn
      obtain ⟨m, hm⟩ := hw.stems hdec htwo hidentity hideal h
      refine ⟨m, fun r' s' text' h' => ?_⟩
      obtain ⟨rfl, rfl, rfl⟩ := hunique h h'
      exact hm
    · exact ⟨0, fun r s text h => absurd ⟨r, s, text, h⟩ hn⟩
  choose f hf using hchoice
  have hmono : ∀ n n' r s text text', n < n' → AcceptedAt w n r s text →
      AcceptedAt w n' r s text' → f n < f n' := by
    intro n n' r s text text' hnn h h'
    obtain ⟨-, -, e, he, hseq⟩ := hf n r s text h
    obtain ⟨-, -, e', he', hseq'⟩ := hf n' r s text' h'
    obtain ⟨data, cipher, hentry'⟩ := h'
    rw [he', Option.some.injEq] at hentry'
    subst hentry'
    obtain ⟨u, buffer, rfl, hout, -, -, -, hfresh⟩ := hw.entries.getElem he'
    have hlt := hfresh e (Trace.mem_take_of_getElem he hnn) _ hseq
    obtain ⟨key, nonce, ad, input, output⟩ := u
    simp only at hout
    subst hout
    simp only [acceptedSeqno, and_self, if_true, Option.some.injEq] at hseq'
    rw [hseq', UInt64.lt_iff_toNat_lt, UInt64.toNat_ofNat_of_lt', UInt64.toNat_ofNat_of_lt'] at hlt
    · by_contra hge
      exact absurd hlt (not_lt.2 (Trace.countP_take_le (not_lt.1 hge)))
    · exact lt_of_le_of_lt (List.take_sublist _ _).countP_le (hcount s _)
    · exact lt_of_le_of_lt (List.take_sublist _ _).countP_le (hcount s _)
  refine ⟨f, fun n r s text h => ?_, hmono, fun n n' r r' s s' text text' h h' heq => ?_⟩
  · obtain ⟨hlt, henc, -⟩ := hf n r s text h
    exact ⟨hlt, henc⟩
  · obtain ⟨-, ⟨value, cipher, he⟩, -⟩ := hf n r s text h
    obtain ⟨-, ⟨value', cipher', he'⟩, -⟩ := hf n' r' s' text' h'
    rw [← heq, he] at he'
    simp only [Option.some.injEq, Prod.mk.injEq, Call.encrypt.injEq] at he'
    obtain rfl : s = s' := he'.1
    obtain rfl : r = r' := hidentity he'.2.1
    rcases lt_trichotomy n n' with hlt | rfl | hlt
    · exact absurd heq (Nat.ne_of_lt (hmono n n' r s text text' hlt h h'))
    · rfl
    · exact absurd heq.symm (Nat.ne_of_lt (hmono n' n r s text' text hlt h' h))

namespace Reference

/-- Payload number 1 as the first manager encrypts it. -/
def secondPayload : Value :=
  relayObject reference nonce
    [206, 78, 197, 34, 163, 138, 137, 128, 246, 129, 217, 235, 90, 56, 208, 140, 156, 103, 6, 243,
      125, 0, 114, 210, 33, 153]

/-- The first manager encrypts the same request twice; the second payload arrives. -/
def exchange : List (Action Bool) :=
  [.establish false (P2PManager.new reference secretB).identity,
    .establish true (P2PManager.new reference secretA).identity,
    .encrypt false (hexEncode publicB.toList) (Utf8.encode request.toList) nonce,
    .encrypt false (hexEncode publicB.toList) (Utf8.encode request.toList) nonce,
    .decrypt true (hexEncode publicA.toList) secondPayload]

def firstDone : Done reference Value :=
  encryptRelayPayload managerA (hexEncode publicB.toList) (Utf8.encode request.toList) nonce

def secondDone : Done reference Value :=
  encryptRelayPayload firstDone.manager (hexEncode publicB.toList) (Utf8.encode request.toList)
    nonce

def lastDone : Done reference String :=
  decryptRelayData managerB (hexEncode publicA.toList) secondPayload

/-- The calls of the exchange. -/
theorem trace_exchange :
    (Runs.run step (World.start reference secrets) exchange).trace =
      [(false, .encrypt (hexEncode publicB.toList) (Utf8.encode request.toList) firstDone.result
          firstDone.cipher),
        (false, .encrypt (hexEncode publicB.toList) (Utf8.encode request.toList) secondDone.result
          secondDone.cipher),
        (true, .decrypt (hexEncode publicA.toList) secondPayload lastDone.result
          lastDone.cipher)] := by
  have hft : (false : Bool) ≠ true := by decide
  have hfirst : step (World.start reference secrets)
      (.establish false (P2PManager.new reference secretB).identity) =
      (World.start reference secrets).update false managerA [] :=
    step_establish_ok establish_managerA
  have hsecond : step ((World.start reference secrets).update false managerA [])
      (.establish true (P2PManager.new reference secretA).identity) =
      ((World.start reference secrets).update false managerA []).update true managerB [] := by
    refine step_establish_ok ?_
    rw [World.update_managers_of_ne hft.symm]
    exact establish_managerB
  rw [exchange, Runs.run_cons, hfirst, Runs.run_cons, hsecond]
  simp only [Runs.run_cons, Runs.run_nil, step, World.update_managers_self,
    World.update_managers_of_ne hft, World.update_managers_of_ne hft.symm]
  rfl

/-- The second payload was encrypted under the session's key. -/
theorem secondDone_cipher : secondDone.cipher =
    some ⟨keyAB, nonce, adAB, toBeBytes 1 ++ Utf8.encode request.toList,
      some [206, 78, 197, 34, 163, 138, 137, 128, 246, 129, 217, 235, 90, 56, 208, 140, 156, 103, 6,
        243, 125, 0, 114, 210, 33, 153]⟩ := by decide +kernel

/-- It is accepted. -/
theorem lastDone_cipher : lastDone.cipher =
    some ⟨keyAB, nonce, adAB,
      [206, 78, 197, 34, 163, 138, 137, 128, 246, 129, 217, 235, 90, 56, 208, 140, 156, 103, 6, 243,
        125, 0, 114, 210, 33, 153],
      some (toBeBytes 1 ++ Utf8.encode request.toList)⟩ := by decide +kernel

theorem lastDone_result : lastDone.result.toOption = some request := by decide +kernel

omit [DecidableEq ι] in
/-- After two encryptions, a decryption of what the second one put out. -/
theorem idealAead_of_trace {w : World c ι} {i j k : ι} {p p' p'' : String} {t t' : Bytes}
    {data : Value} {r r' : Except TransportError Value} {r'' : Except TransportError String}
    {cipher : Option CipherUse} {u v : CipherUse}
    (htrace : w.trace = [(i, .encrypt p t r cipher), (j, .encrypt p' t' r' (some v)),
      (k, .decrypt p'' data r'' (some u))])
    (hkey : v.key = u.key) (hnonce : v.nonce = u.nonce) (had : v.ad = u.ad)
    (hout : v.output = some u.input) : IdealAead w := by
  intro n _ _ _ _ x _ hn _
  rw [htrace] at hn ⊢
  match n with
  | 0 => exact absurd hn (by simp)
  | 1 => exact absurd hn (by simp)
  | 2 =>
      simp only [List.getElem?_cons_succ, List.getElem?_cons_zero, Option.some.injEq,
        Prod.mk.injEq, Call.decrypt.injEq] at hn
      obtain ⟨-, -, -, -, rfl⟩ := hn
      exact ⟨1, by decide, j, p', t', r', v, rfl, hkey, hnonce, had, hout⟩
  | n + 3 => exact absurd hn (by simp)

theorem idealAead_exchange : IdealAead (Runs.run step (World.start reference secrets) exchange) := by
  have htrace := trace_exchange
  rw [secondDone_cipher, lastDone_cipher] at htrace
  exact idealAead_of_trace htrace rfl rfl rfl rfl

theorem distinct_secrets : Function.Injective fun i => reference.x25519Public (secrets i) := by
  intro i j h
  have hne : publicA ≠ publicB := by decide
  have hA : reference.x25519Public (secrets false) = publicA := x25519Public_secretA
  have hB : reference.x25519Public (secrets true) = publicB := x25519Public_secretB
  cases i with
  | false =>
      cases j with
      | false => rfl
      | true => exact absurd (hA.symm.trans (h.trans hB)) hne
  | true =>
      cases j with
      | false => exact absurd (hA.symm.trans (h.symm.trans hB)) hne
      | true => rfl

end Reference

open Reference in
theorem relay_authentic_reference :
    let w := Runs.run step (World.start reference secrets) exchange
    AcceptedAt w 2 true false request ∧ ∃ m < 2, EncryptedAt w m false true request := by
  intro w
  have hnamed := (tracked_run (c := reference) secrets exchange).named false
  have hcount : ∀ i peer, encryptions i peer w.trace < 2 ^ 64 := by
    intro i peer
    refine lt_of_le_of_lt List.countP_le_length ?_
    rw [trace_exchange]
    decide
  have hidentity : (w.managers false).identity = hexEncode publicA.toList :=
    hnamed.trans (by rw [secrets, if_neg (by decide), identity_reference, x25519Public_secretA])
  have haccepted : AcceptedAt w 2 true false request := by
    refine ⟨secondPayload, lastDone.cipher, ?_⟩
    have hresult : lastDone.result = .ok request := by
      cases h : lastDone.result with
      | error err => exact absurd lastDone_result (by simp [h, Except.toOption])
      | ok text => rw [Option.some.inj (h ▸ lastDone_result : (Except.ok text).toOption = _)]
    rw [trace_exchange, hidentity, List.getElem?_cons_succ, List.getElem?_cons_succ,
      List.getElem?_cons_zero, hresult]
  obtain ⟨f, hf, -⟩ := relay_authentic reference_decrypts reference_hex reference_twoDigits secrets
    distinct_secrets exchange idealAead_exchange hcount
  exact ⟨haccepted, f 2, hf 2 true false request haccepted⟩

end Transport
end FolkAround
