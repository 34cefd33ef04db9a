import Mathlib.Logic.Function.Basic
import FolkAround.Lib.Runs
import FolkAround.Transport.Reference

/-!
# Managers on a hostile network

Any number of managers, and between them a signalling server that may deliver any
text to anyone at any time: drop, repeat, reorder, redirect, rewrite and invent
messages.

* `World`, `Action`, `step` — the managers with the trace of all calls of the two
  relay functions; a manager may also be called directly.
* `signal_calls` — a message does what a few direct calls do, so that whatever direct
  calls keep, messages keep too (`run_invariant_of_calls`).
* `SessionsDerived` — every session key is the one derived for the identity the
  session is stored under.
* `handshake_agreement` — both ends of a session hold the same key, and a further
  offer or answer leaves every session as it is.
-/

namespace FolkAround
namespace Transport

variable {c : Crates} {ι : Type} [DecidableEq ι]

/-! ## Runs of a network -/

/-- The managers, and every call of a relay function so far. -/
structure World (c : Crates) (ι : Type) where
  managers : ι → P2PManager c
  trace : List (ι × Call)

/-- The start: every manager is fresh, with the secret it drew. -/
def World.start (c : Crates) (secret : ι → Key) : World c ι := ⟨fun i => .new c (secret i), []⟩

/-- What can happen: a manager receives a text, with the answer its tools give to a
request in it and the nonce drawn for that answer, or one of its functions is
called. -/
inductive Action (ι : Type) where
  | signal (i : ι) (raw : String) (reply : Value → Except TransportError (Option String))
      (nonce : Nonce)
  | establish (i : ι) (peer : String)
  | encrypt (i : ι) (peer : String) (plaintext : Bytes) (nonce : Nonce)
  | decrypt (i : ι) (sender : String) (data : Value)

/-- A manager has become another one and made some calls. -/
def World.update (w : World c ι) (i : ι) (m : P2PManager c) (calls : List Call) : World c ι :=
  ⟨Function.update w.managers i m, w.trace ++ calls.map fun call => (i, call)⟩

/-- One thing happens. -/
def step (w : World c ι) : Action ι → World c ι
  | .signal i raw reply nonce =>
    let handled := handleSignalMessage (w.managers i) raw reply nonce
    w.update i handled.manager handled.calls
  | .establish i peer =>
    match establishSession (w.managers i) peer with
    | .ok m => w.update i m []
    | .error _ => w
  | .encrypt i peer plaintext nonce =>
    let done := encryptRelayPayload (w.managers i) peer plaintext nonce
    w.update i done.manager [.encrypt peer plaintext done.result done.cipher]
  | .decrypt i sender data =>
    let done := decryptRelayData (w.managers i) sender data
    w.update i done.manager [.decrypt sender data done.result done.cipher]

/-! ## Messages as calls -/

/-- A direct call of one of the three functions. -/
def Action.isCall : Action ι → Bool
  | .signal .. => false
  | _ => true

theorem World.update_self (w : World c ι) (i : ι) : w.update i (w.managers i) [] = w := by
  simp [World.update]

theorem World.update_update (w : World c ι) (i : ι) (m m' : P2PManager c)
    (calls calls' : List Call) :
    (w.update i m calls).update i m' calls' = w.update i m' (calls ++ calls') := by
  simp [World.update]

@[simp] theorem World.update_managers_self (w : World c ι) (i : ι) (m : P2PManager c)
    (calls : List Call) : (w.update i m calls).managers i = m := by
  simp [World.update]

theorem World.update_managers_of_ne {w : World c ι} {i j : ι} (h : j ≠ i) (m : P2PManager c)
    (calls : List Call) : (w.update i m calls).managers j = w.managers j := by
  simp [World.update, h]

theorem step_establish_ok {w : World c ι} {i : ι} {peer : String} {m : P2PManager c}
    (h : establishSession (w.managers i) peer = .ok m) :
    step w (.establish i peer) = w.update i m [] := by
  simp only [step, h]

/-- The answer to a request is one more call. -/
theorem sendReply_calls (w : World c ι) (i : ι) (m : P2PManager c) (sender resp : String)
    (nonce : Nonce) (calls : List Call) :
    w.update i (sendReply m sender resp nonce calls).manager
        (sendReply m sender resp nonce calls).calls =
      step (w.update i m calls) (.encrypt i sender (Utf8.encode resp.toList) nonce) := by
  simp only [step, World.update_managers_self, World.update_update, sendReply]
  split
  · rfl
  · rfl

theorem handleRelay_calls (w : World c ι) (i : ι)
    (reply : Value → Except TransportError (Option String)) (nonce : Nonce) (parsed : Value) :
    ∃ as : List (Action ι), (∀ a ∈ as, a.isCall = true) ∧
      w.update i (handleRelay (w.managers i) reply nonce parsed).manager
          (handleRelay (w.managers i) reply nonce parsed).calls = Runs.run step w as := by
  have hnothing : ∃ as : List (Action ι), (∀ a ∈ as, a.isCall = true) ∧
      w.update i (w.managers i) [] = Runs.run step w as :=
    ⟨[], by simp, by rw [World.update_self, Runs.run_nil]⟩
  unfold handleRelay
  split
  · exact hnothing
  · next sender _ =>
      split
      · exact hnothing
      · next data _ =>
          split
          · exact hnothing
          · -- from here on the request was decrypted
            have hone : ∃ as : List (Action ι), (∀ a ∈ as, a.isCall = true) ∧
                w.update i (decryptRelayData (w.managers i) sender data).manager
                  [.decrypt sender data (decryptRelayData (w.managers i) sender data).result
                    (decryptRelayData (w.managers i) sender data).cipher] =
                  Runs.run step w as :=
              ⟨[.decrypt i sender data], by simp [Action.isCall], rfl⟩
            simp only
            split
            · exact hone
            · split
              · exact hone
              · split
                · exact hone
                · exact hone
                · next resp _ =>
                    refine ⟨[.decrypt i sender data,
                      .encrypt i sender (Utf8.encode resp.toList) nonce], ?_, ?_⟩
                    · simp [Action.isCall]
                    · rw [sendReply_calls]
                      rfl

/-- **A message is a few calls.** -/
theorem signal_calls (w : World c ι) (i : ι) (raw : String)
    (reply : Value → Except TransportError (Option String)) (nonce : Nonce) :
    ∃ as : List (Action ι), (∀ a ∈ as, a.isCall = true) ∧
      step w (.signal i raw reply nonce) = Runs.run step w as := by
  have hnothing : ∃ as : List (Action ι), (∀ a ∈ as, a.isCall = true) ∧
      w.update i (w.managers i) [] = Runs.run step w as :=
    ⟨[], by simp, by rw [World.update_self, Runs.run_nil]⟩
  have hestablish (peer : String) (m : P2PManager c)
      (h : establishSession (w.managers i) peer = .ok m) :
      ∃ as : List (Action ι), (∀ a ∈ as, a.isCall = true) ∧
        w.update i m [] = Runs.run step w as :=
    ⟨[.establish i peer], by simp [Action.isCall], by
      rw [Runs.run_cons, Runs.run_nil, step_establish_ok h]⟩
  simp only [step, handleSignalMessage]
  split
  · exact hnothing
  · split
    · split
      · exact hnothing
      · exact hnothing
    · split
      · split
        · exact hnothing
        · exact hnothing
      · split
        · split
          · split
            · exact hnothing
            · next peer _ _ m h => exact hestablish peer m h
          · exact hnothing
        · split
          · split
            · split
              · exact hnothing
              · next peer _ _ m h => exact hestablish peer m h
            · exact hnothing
          · split
            · exact handleRelay_calls w i reply nonce _
            · exact hnothing

/-- What every direct call keeps, every run keeps. -/
theorem run_invariant_of_calls {Inv : World c ι → Prop}
    (hcall : ∀ w a, a.isCall = true → Inv w → Inv (step w a)) {w : World c ι} (hw : Inv w)
    (as : List (Action ι)) : Inv (Runs.run step w as) := by
  refine Runs.run_invariant_of_forall step (fun w a h => ?_) hw as
  cases a with
  | signal i raw reply nonce =>
      obtain ⟨bs, hbs, heq⟩ := signal_calls w i raw reply nonce
      rw [heq]
      have hmeet : Runs.StepsMeet step (fun _ a => a.isCall = true) w bs :=
        Runs.stepsMeet_of_mem step (fun a ha _ => hbs a ha) w
      exact Runs.run_invariant step (fun w a hw ha => hcall w a ha hw) h hmeet
  | _ => exact hcall _ _ rfl h

/-! ## Keys -/

/-- The order of two different keys is one way or the other. -/
theorem keyLt_of_not {a b : Key} (hab : keyLt a b = false) (hba : keyLt b a = false) : a = b := by
  have h := le_antisymm (not_lt.1 (of_decide_eq_false hba)) (not_lt.1 (of_decide_eq_false hab))
  have hinj : Function.Injective (List.map UInt8.toNat) :=
    List.map_injective_iff.2 fun _ _ => UInt8.toNat_inj.1
  exact List.Vector.toList_injective (hinj h)

/-- Both sides put the same salt together. -/
theorem sessionSalt_comm (a b : Key) : sessionSalt a b = sessionSalt b a := by
  unfold sessionSalt
  cases hab : keyLt a b with
  | true =>
      have hba : keyLt b a = false :=
        decide_eq_false (lt_asymm (of_decide_eq_true hab))
      simp [hba]
  | false =>
      cases hba : keyLt b a with
      | true => simp
      | false => simp [keyLt_of_not hab hba]

/-- Both sides derive the same key. -/
theorem sessionKey_comm (hshared : c.SharedComm) (m n : P2PManager c) :
    sessionKey m n.identityPublic = sessionKey n m.identityPublic := by
  unfold sessionKey
  rw [sessionSalt_comm, n.public_eq, hshared, m.public_eq]

theorem parseIdentity_identity (hhex : c.HexRoundTrip) (m : P2PManager c) :
    parseIdentity c m.identity = .ok m.identityPublic := by
  have hlen : m.identityPublic.toList.length = 32 := m.identityPublic.toList_length
  simp only [parseIdentity, P2PManager.identity, hhex m.identityPublic.toList, hlen, dif_pos]
  rfl

/-- What a call can do to a manager: its sessions stay, with their keys, and a new one
has the key derived for the identity it is stored under. -/
structure Grows (m m' : P2PManager c) : Prop where
  same : m' = m.withSessions m'.sessions
  kept : ∀ p s, m.sessions.get p = some s → ∃ s', m'.sessions.get p = some s' ∧ s'.key = s.key
  fresh : ∀ p s', m'.sessions.get p = some s' → m.sessions.get p = none →
    ∃ peerPublic, parseIdentity c p = .ok peerPublic ∧ sessionKey m peerPublic = some s'.key

theorem Grows.refl (m : P2PManager c) : Grows m m :=
  ⟨rfl, fun _ s hs => ⟨s, hs, rfl⟩, fun p s' hs' hs => absurd (hs.symm.trans hs') (by simp)⟩

theorem Grows.establish {m m' : P2PManager c} {peer : String}
    (h : establishSession m peer = .ok m') : Grows m m' := by
  obtain ⟨peerPublic, key, hparse, hkey, hm', hget⟩ := establishSession_ok h
  refine ⟨hm', fun p s hs => ⟨s, ?_, rfl⟩, fun p s' hs' hs => ?_⟩
  · rw [hget, hs, if_neg (fun hc => absurd hc.2 (by simp))]
  · rw [hget] at hs'
    split at hs'
    · next hp =>
        rw [← Option.some.inj hs']
        exact ⟨peerPublic, hp.1 ▸ hparse, hkey⟩
    · rw [hs] at hs'
      exact absurd hs' (by simp)

/-- Updating a session that is there, key aside. -/
theorem Grows.set {m : P2PManager c} {peer : String} {s t : Session}
    (hs : m.sessions.get peer = some s) (ht : t.key = s.key) :
    Grows m (m.withSessions (m.sessions.set peer t)) := by
  refine ⟨rfl, fun p u hu => ?_, fun p u hu hnone => ?_⟩
  · rw [P2PManager.withSessions_sessions, OrdMap.get_set]
    by_cases hp : peer = p
    · subst hp
      rw [hs, Option.some.injEq] at hu
      exact ⟨t, if_pos rfl, hu ▸ ht⟩
    · exact ⟨u, by rw [if_neg hp, hu], rfl⟩
  · rw [P2PManager.withSessions_sessions, OrdMap.get_set] at hu
    split at hu
    · next hp =>
        rw [← hp, hs] at hnone
        exact absurd hnone (by simp)
    · rw [hnone] at hu
      exact absurd hu (by simp)

theorem Grows.encrypt (m : P2PManager c) (peer : String) (plaintext : Bytes) (nonce : Nonce) :
    Grows m (encryptRelayPayload m peer plaintext nonce).manager := by
  rcases encryptRelayPayload_cases m peer plaintext nonce with ⟨-, h⟩ | ⟨s, output, hs, -, h⟩
  · rw [h]
    exact Grows.refl m
  · rw [h]
    exact Grows.set hs rfl

theorem Grows.decrypt (m : P2PManager c) (sender : String) (data : Value) :
    Grows m (decryptRelayData m sender data).manager := by
  rcases decryptRelayData_cases m sender data with ⟨h, -⟩ | ⟨_, _, s, _, _, hs, _, _, _, h⟩
  · rw [h]
    exact Grows.refl m
  · rw [h]
    exact Grows.set hs rfl

theorem grows_update (w : World c ι) (i j : ι) {m : P2PManager c} (h : Grows (w.managers i) m)
    (calls : List Call) : Grows (w.managers j) ((w.update i m calls).managers j) := by
  by_cases hij : j = i
  · subst hij
    rw [World.update_managers_self]
    exact h
  · rw [World.update_managers_of_ne hij]
    exact Grows.refl _

/-- A direct call lets every manager grow, the others in that they stay. -/
theorem grows_step (w : World c ι) {a : Action ι} (ha : a.isCall = true) (j : ι) :
    Grows (w.managers j) ((step w a).managers j) := by
  cases a with
  | signal i raw reply nonce => exact absurd ha (by simp [Action.isCall])
  | establish i peer =>
      simp only [step]
      split
      · next m h => exact grows_update w i j (Grows.establish h) []
      · exact Grows.refl _
  | encrypt i peer plaintext nonce => exact grows_update w i j (Grows.encrypt ..) _
  | decrypt i sender data => exact grows_update w i j (Grows.decrypt ..) _

/-- The managers keep their secrets, and every session key is the one derived for the
identity it is stored under. -/
structure SessionsDerived (secret : ι → Key) (w : World c ι) : Prop where
  secret : ∀ i, (w.managers i).identitySecret = secret i
  derived : ∀ i p s, (w.managers i).sessions.get p = some s →
    ∃ peerPublic, parseIdentity c p = .ok peerPublic ∧
      sessionKey (w.managers i) peerPublic = some s.key

omit [DecidableEq ι] in
theorem sessionsDerived_start (secret : ι → Key) :
    SessionsDerived secret (World.start c secret) :=
  ⟨fun _ => rfl, fun i p s h => by simp [World.start, P2PManager.new] at h⟩

theorem SessionsDerived.step {secret : ι → Key} {w : World c ι} {a : Action ι}
    (ha : a.isCall = true) (h : SessionsDerived secret w) :
    SessionsDerived secret (step w a) := by
  refine ⟨fun i => ?_, fun i p s' hs' => ?_⟩
  · rw [(grows_step w ha i).same, P2PManager.withSessions_secret, h.secret i]
  · have hg := grows_step w ha i
    have hsame : sessionKey ((Transport.step w a).managers i) = sessionKey (w.managers i) := by
      rw [hg.same]
      rfl
    rw [hsame]
    cases hs : (w.managers i).sessions.get p with
    | none => exact hg.fresh p s' hs' hs
    | some s =>
        obtain ⟨t, ht, hkey⟩ := hg.kept p s hs
        rw [hs', Option.some.injEq] at ht
        rw [ht, hkey]
        exact h.derived i p s hs

theorem sessionsDerived_run (secret : ι → Key) (as : List (Action ι)) :
    SessionsDerived secret (Runs.run step (World.start c secret) as) :=
  run_invariant_of_calls (fun _ _ ha h => h.step ha) (sessionsDerived_start secret) as

/-! ## Agreement -/

/-- The text is an offer or an answer. -/
def IsHandshake (c : Crates) (raw : String) : Prop :=
  ∃ parsed, c.fromStr raw = some parsed ∧
    ((parsed.get "type").bind Value.asStr = some "offer" ∨
      (parsed.get "type").bind Value.asStr = some "answer")

/-- An offer or an answer from a peer with whom a session can be had. -/
theorem handshake_manager {m m' : P2PManager c} {raw : String} {parsed : Value} {type peer : String}
    (hraw : c.fromStr raw = some parsed)
    (htype : (parsed.get "type").bind Value.asStr = some type)
    (hhandshake : type = "offer" ∨ type = "answer")
    (hpeer : (parsed.get "from").bind Value.asStr = some peer)
    (hm : establishSession m peer = .ok m')
    (reply : Value → Except TransportError (Option String)) (nonce : Nonce) :
    (handleSignalMessage m raw reply nonce).manager = m' := by
  rcases hhandshake with rfl | rfl
  · simp only [handleSignalMessage, hraw, htype, hpeer, hm, Option.getD_some, String.reduceEq,
      if_false, if_true]
  · simp only [handleSignalMessage, hraw, htype, hpeer, hm, Option.getD_some, String.reduceEq,
      if_false, if_true]

/-- An offer or an answer leaves every session that is there as it is. -/
theorem handshake_keeps {m : P2PManager c} {raw : String} (h : IsHandshake c raw)
    (reply : Value → Except TransportError (Option String)) (nonce : Nonce) {p : String}
    {s : Session} (hs : m.sessions.get p = some s) :
    (handleSignalMessage m raw reply nonce).manager.sessions.get p = some s := by
  have hestablish (peer : String) (m' : P2PManager c) (hm : establishSession m peer = .ok m') :
      m'.sessions.get p = some s := by
    obtain ⟨_, _, _, _, _, hget⟩ := establishSession_ok hm
    rw [hget, hs, if_neg (fun hc => absurd hc.2 (by simp))]
  obtain ⟨parsed, hparsed, htype | htype⟩ := h
  · simp only [handleSignalMessage, hparsed, htype, Option.getD_some, String.reduceEq, if_false,
      if_true]
    split
    · split
      · exact hs
      · next m' hm => exact hestablish _ m' hm
    · exact hs
  · simp only [handleSignalMessage, hparsed, htype, Option.getD_some, String.reduceEq, if_false,
      if_true]
    split
    · split
      · exact hs
      · next m' hm => exact hestablish _ m' hm
    · exact hs

/-- **Handshake agreement.**  However offers, answers and relays were delivered: two
managers that hold sessions under each other's identities hold the same key, and a
further offer or answer changes no session that is there. -/
theorem handshake_agreement (hshared : c.SharedComm) (hhex : c.HexRoundTrip) (secret : ι → Key)
    (as : List (Action ι)) :
    let w := Runs.run step (World.start c secret) as
    (∀ i j si sj, (w.managers i).sessions.get (w.managers j).identity = some si →
      (w.managers j).sessions.get (w.managers i).identity = some sj → si.key = sj.key) ∧
    ∀ i raw reply nonce, IsHandshake c raw → ∀ j p s,
      (w.managers j).sessions.get p = some s →
        ((step w (.signal i raw reply nonce)).managers j).sessions.get p = some s := by
  intro w
  have hw : SessionsDerived secret w := sessionsDerived_run secret as
  refine ⟨fun i j si sj hi hj => ?_, fun i raw reply nonce hraw j p s hs => ?_⟩
  · obtain ⟨ki, hki, hkeyi⟩ := hw.derived i _ si hi
    obtain ⟨kj, hkj, hkeyj⟩ := hw.derived j _ sj hj
    rw [parseIdentity_identity hhex, Except.ok.injEq] at hki hkj
    subst hki hkj
    rw [sessionKey_comm hshared, hkeyj] at hkeyi
    exact (Option.some.inj hkeyi).symm
  · simp only [step]
    by_cases hij : j = i
    · subst hij
      rw [World.update_managers_self]
      exact handshake_keeps hraw reply nonce hs
    · rw [World.update_managers_of_ne hij]
      exact hs

namespace Reference

/-- The secrets of the two managers, `false` for the first. -/
def secrets (i : Bool) : Key := if i then secretB else secretA

/-- The first manager with its session. -/
def managerA : P2PManager reference :=
  (P2PManager.new reference secretA).withSessions
    (OrdMap.empty.set (hexEncode publicB.toList) ⟨keyAB, 0, 0⟩)

/-- The second manager with its session. -/
def managerB : P2PManager reference :=
  (P2PManager.new reference secretB).withSessions
    (OrdMap.empty.set (hexEncode publicA.toList) ⟨keyAB, 0, 0⟩)

theorem identity_managerA : managerA.identity = hexEncode publicA.toList := by
  rw [managerA, P2PManager.withSessions_identity, identity_reference, x25519Public_secretA]

theorem identity_managerB : managerB.identity = hexEncode publicB.toList := by
  rw [managerB, P2PManager.withSessions_identity, identity_reference, x25519Public_secretB]

theorem establish_managerA :
    establishSession (.new reference secretA) (P2PManager.new reference secretB).identity =
      .ok managerA := by
  have hkey : sessionKey (.new reference secretA) (P2PManager.new reference secretB).identityPublic =
      some keyAB := by decide +kernel
  have hnone : (P2PManager.new reference secretA).sessions.get
      (P2PManager.new reference secretB).identity = none := OrdMap.get_empty _
  simp only [establishSession, parseIdentity_identity reference_hex, hkey, hnone]
  rw [identity_reference, x25519Public_secretB, managerA]
  rfl

theorem establish_managerB :
    establishSession (.new reference secretB) (P2PManager.new reference secretA).identity =
      .ok managerB := by
  have hkey : sessionKey (.new reference secretB) (P2PManager.new reference secretA).identityPublic =
      some keyAB := by decide +kernel
  have hnone : (P2PManager.new reference secretB).sessions.get
      (P2PManager.new reference secretA).identity = none := OrdMap.get_empty _
  simp only [establishSession, parseIdentity_identity reference_hex, hkey, hnone]
  rw [identity_reference, x25519Public_secretA, managerB]
  rfl

/-- Tools that answer nothing. -/
def silent (_ : Value) : Except TransportError (Option String) := .ok none

/-- The first offers, the second answers. -/
def handshake : List (Action Bool) :=
  [.signal true (text offer) silent nonce, .signal false (text answer) silent nonce]

/-- The offer gives the second manager its session. -/
theorem manager_offer :
    (handleSignalMessage (.new reference secretB) (text offer) silent nonce).manager =
      managerB := by
  have htype : (offer.get "type").bind Value.asStr = some "offer" := by
    simp [offer, offerMessage]
  have hfrom : (offer.get "from").bind Value.asStr =
      some (P2PManager.new reference secretA).identity := by
    simp only [offer, offerMessage, Value.get_object, List.lookup_cons, String.reduceBEq,
      Option.bind_some, Value.asStr_string, identity_withoutJson, identity_reference]
  exact handshake_manager fromStr_offer htype (.inl rfl) hfrom establish_managerB silent nonce

/-- The answer gives the first one its own. -/
theorem manager_answer :
    (handleSignalMessage (.new reference secretA) (text answer) silent nonce).manager =
      managerA := by
  have htype : (answer.get "type").bind Value.asStr = some "answer" := by
    simp [answer, answerMessage]
  have hfrom : (answer.get "from").bind Value.asStr =
      some (P2PManager.new reference secretB).identity := by
    simp only [answer, answerMessage, Value.get_object, List.lookup_cons, String.reduceBEq,
      Option.bind_some, Value.asStr_string, identity_withoutJson, identity_reference]
  exact handshake_manager fromStr_answer htype (.inr rfl) hfrom establish_managerA silent nonce

/-- The two managers after the handshake. -/
theorem managers_handshake :
    let w := Runs.run step (World.start reference secrets) handshake
    w.managers false = managerA ∧ w.managers true = managerB := by
  intro w
  have hft : (false : Bool) ≠ true := by decide
  constructor
  · simp only [w, handshake, Runs.run_cons, Runs.run_nil, step, World.update_managers_self,
      World.update_managers_of_ne hft]
    exact manager_answer
  · simp only [w, handshake, Runs.run_cons, Runs.run_nil, step,
      World.update_managers_of_ne hft.symm, World.update_managers_self]
    exact manager_offer

end Reference

open Reference in
theorem handshake_agreement_reference :
    let w := Runs.run step (World.start reference secrets) handshake
    ∃ s, (w.managers false).sessions.get (w.managers true).identity = some s ∧
      ∃ t, (w.managers true).sessions.get (w.managers false).identity = some t ∧ s.key = t.key := by
  intro w
  obtain ⟨hfalse, htrue⟩ := managers_handshake
  have hs : (w.managers false).sessions.get (w.managers true).identity = some ⟨keyAB, 0, 0⟩ := by
    rw [hfalse, htrue, identity_managerB]
    exact OrdMap.get_set_self ..
  have ht : (w.managers true).sessions.get (w.managers false).identity = some ⟨keyAB, 0, 0⟩ := by
    rw [hfalse, htrue, identity_managerA]
    exact OrdMap.get_set_self ..
  exact ⟨_, hs, _, ht, (handshake_agreement reference_shared reference_hex secrets
    handshake).1 false true _ _ hs ht⟩

end Transport
end FolkAround
