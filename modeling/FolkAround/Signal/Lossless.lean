import FolkAround.Signal.Delivery
import FolkAround.Signal.RateLimit

/-!
# Relays that are sure to arrive

The rate limit and the two maps say when a relay is not passed on.  This module says when
it is: between two sockets that keep their places in the room nothing is lost, as long as
the sender keeps to the limit.

* `Attempt`, `attempts` — the relays that are counted, whether they pass or not.
* `paced_run` — where an identity keeps to the limit in every second, all of them pass.
* `Stands`, `LeavesAlone` — a socket in its place, and the events that leave it there.
* `sent`, `received` — what goes in at the one end, and what comes out at the other.
* `relays_delivered` — they are the same.
-/

namespace FolkAround
namespace Signal

variable {Ws : Type} [DecidableEq Ws]

/-! ## Relays that are counted -/

/-- A relay that is counted: under which identity, and when. -/
structure Attempt where
  identity : Identity
  time : Int

/-- The relay that is counted in an event, if one is. -/
def attempt (w : World Ws) : Action Ws → Option Attempt
  | .message s env parsed =>
    if s ∈ w.closed then none else (countedAs s parsed w.room).map fun x => ⟨x, env.now⟩
  | .close .. => none

/-- The relays that are counted in a run, in order. -/
def attempts (w : World Ws) : List (Action Ws) → List Attempt
  | [] => []
  | a :: as => (attempt w a).toList ++ attempts (step w a) as

/-- An identity keeps to the limit in every second. -/
def Paced (x : Identity) (as : List (Action Ws)) : Prop :=
  ∀ t, (attempts World.start as).countP (fun r => r.identity = x ∧ t ≤ r.time ∧ r.time < t + 1000) ≤
    maxRelayPerWindow

/-- If a relay is counted under the identity in the event, it passes. -/
def Passes (x : Identity) (w : World Ws) (a : Action Ws) : Prop :=
  ∀ r, attempt w a = some r → r.identity = x → admitted w a ≠ none

theorem attempt_time {w : World Ws} {a : Action Ws} {r : Attempt} (h : attempt w a = some r) :
    r.time = a.env.now := by
  cases a with
  | close s env => cases h
  | message s env parsed =>
      by_cases hs : s ∈ w.closed
      · simp [attempt, hs] at h
      · rw [attempt, if_neg hs] at h
        obtain ⟨x, -, rfl⟩ := Option.map_eq_some_iff.1 h
        rfl

/-- What is not counted leaves the counter of an identity as it is. -/
theorem limiter_not_counted {x : Identity} {p : World Ws × List (Relay Ws)} {a : Action Ws}
    (h : ∀ r, attempt p.1 a = some r → r.identity ≠ x) : limiter x (auditStep p a) = limiter x p := by
  apply limiter_congr
  · cases a with
    | close s env =>
        simp only [auditStep, step]
        split
        · rfl
        · exact get_rateLimit_onClose env s p.1.room x
    | message s env parsed =>
        simp only [auditStep, step]
        split
        · rfl
        · next hs =>
            cases hcount : countedAs s parsed p.1.room with
            | none => simp only [(onMessage_not_counted env hcount).1]
            | some y =>
                have hy : y ≠ x := h ⟨y, env.now⟩ (by simp [attempt, hs, hcount])
                simp only [(onMessage_counted env hcount).1, counted]
                exact OrdMap.get_set_of_ne (by simpa using hy)
  · cases a with
    | close s env => simp [auditStep, admitted]
    | message s env parsed =>
        simp only [auditStep, admitted]
        split
        · simp
        · next hs =>
            cases hcount : countedAs s parsed p.1.room with
            | none => simp [(onMessage_not_counted env hcount).2]
            | some y =>
                have hy : y ≠ x := h ⟨y, env.now⟩ (by simp [attempt, hs, hcount])
                rw [(onMessage_counted env hcount).2]
                dsimp only
                split
                · simp [List.filter_append, hy]
                · simp

/-- What is counted moves the counter of its identity, and passes if there is room. -/
theorem limiter_attempt {p : World Ws × List (Relay Ws)} {a : Action Ws} {r : Attempt}
    (h : attempt p.1 a = some r) :
    limiter r.identity (auditStep p a) =
        (limiter r.identity p).event relayRateLimitWindowMs maxRelayPerWindow r.time ∧
      ((FixedWindow.tick relayRateLimitWindowMs r.time (limiter r.identity p).window).count ≤
        maxRelayPerWindow → admitted p.1 a ≠ none) := by
  cases a with
  | close s env => cases h
  | message s env parsed =>
      by_cases hs : s ∈ p.1.closed
      · simp [attempt, hs] at h
      · simp only [attempt, if_neg hs, Option.map_eq_some_iff] at h
        obtain ⟨x, hcount, rfl⟩ := h
        obtain ⟨hroom, hadmitted⟩ := onMessage_counted env hcount
        refine ⟨?_, ?_⟩
        · rw [auditStep, admitted, if_neg hs, hadmitted]
          apply limiter_counted
          simp only [step, if_neg hs, hroom]
        · intro hfree
          rw [admitted, if_neg hs, hadmitted]
          have htick := toWindow_countRelay env.now (p.1.room.rateLimit.get (.identity x))
          simp only [limiter, ← htick, RateEntry.toWindow] at hfree
          simp [hfree]

/-! ## Keeping to the limit -/

/-- What passed so far and what is still tried, in a second. -/
def PacedAfter (x : Identity) (p : World Ws × List (Relay Ws)) (as : List (Action Ws)) : Prop :=
  ∀ t, (limiter x p).log.countP (fun a => t ≤ a.time ∧ a.time < t + relayRateLimitWindowMs) +
    (attempts p.1 as).countP (fun r => r.identity = x ∧ t ≤ r.time ∧ r.time < t + 1000) ≤
      maxRelayPerWindow

/-- The counter of an identity whose relays have all passed. -/
structure Unhindered (x : Identity) (lo : Int) (p : World Ws × List (Relay Ws)) : Prop where
  inv : FixedWindow.Inv relayRateLimitWindowMs maxRelayPerWindow lo (limiter x p)
  all : FixedWindow.AllPassed (limiter x p)

theorem unhindered_start (x : Identity) (lo : Int) :
    Unhindered x lo ((World.start, []) : World Ws × List (Relay Ws)) :=
  ⟨FixedWindow.inv_start _ _ lo, FixedWindow.allPassed_start⟩

/-- **One event.**  A relay of an identity that keeps to the limit passes. -/
theorem paced_step {x : Identity} {lo : Int} {p : World Ws × List (Relay Ws)} {a : Action Ws}
    {as : List (Action Ws)} (h : Unhindered x lo p) (hlo : lo ≤ a.env.now)
    (hpaced : PacedAfter x p (a :: as)) :
    Passes x p.1 a ∧ Unhindered x a.env.now (auditStep p a) ∧ PacedAfter x (auditStep p a) as := by
  by_cases hcount : ∃ r, attempt p.1 a = some r ∧ r.identity = x
  · obtain ⟨r, hr, rfl⟩ := hcount
    have htime := attempt_time hr
    obtain ⟨hevent, hpass⟩ := limiter_attempt hr
    have hrecent : ∀ t, t ≤ r.time → r.time < t + relayRateLimitWindowMs →
        (limiter r.identity p).log.countP
          (fun a => t ≤ a.time ∧ a.time < t + relayRateLimitWindowMs) < maxRelayPerWindow := by
      intro t hle hlt
      have hsecond := hpaced t
      rw [attempts, hr, Option.toList_some, List.countP_append, List.countP_singleton] at hsecond
      have hlt' : r.time < t + 1000 := hlt
      simp only [hle, hlt', and_self, decide_true, if_true] at hsecond
      omega
    obtain ⟨hfree, hall⟩ := h.inv.event_passes h.all (by decide) (htime ▸ hlo) hrecent
    have hinv : FixedWindow.Inv relayRateLimitWindowMs maxRelayPerWindow r.time
        ((limiter r.identity p).event relayRateLimitWindowMs maxRelayPerWindow r.time) :=
      h.inv.event (by decide) (htime ▸ hlo)
    rw [← hevent] at hall hinv
    refine ⟨fun _ _ _ => hpass hfree, ⟨htime ▸ hinv, hall⟩, ?_⟩
    -- the relay moves from those that are tried to those that have passed
    intro t
    have hsecond := hpaced t
    rw [attempts, hr, Option.toList_some, List.countP_append, List.countP_singleton] at hsecond
    rw [hevent, FixedWindow.State.event]
    dsimp only
    rw [if_pos hfree, List.countP_append, List.countP_singleton]
    have hrest : (auditStep p a).1 = step p.1 a := rfl
    rw [hrest]
    by_cases hin : t ≤ r.time ∧ r.time < t + 1000
    · have hin' : t ≤ r.time ∧ r.time < t + relayRateLimitWindowMs := hin
      simp only [hin, and_self, decide_true, if_true] at hsecond
      simp only [hin', and_self, decide_true, if_true]
      omega
    · have hin' : ¬ (t ≤ r.time ∧ r.time < t + relayRateLimitWindowMs) := hin
      simp only [hin']
      simp only [hin, and_false] at hsecond
      simpa using hsecond
  · have hother : ∀ r, attempt p.1 a = some r → r.identity ≠ x :=
      fun r hr hx => hcount ⟨r, hr, hx⟩
    have hsame := limiter_not_counted hother
    refine ⟨fun r hr hx => absurd hx (hother r hr), ⟨?_, ?_⟩, ?_⟩
    · rw [hsame]
      exact h.inv.mono hlo
    · rw [hsame]
      exact h.all
    · intro t
      have hsecond := hpaced t
      rw [attempts, List.countP_append] at hsecond
      rw [hsame]
      exact le_trans (Nat.add_le_add_left (Nat.le_add_left _ _) _) hsecond

theorem paced_run {x : Identity} {lo : Int} {p : World Ws × List (Relay Ws)} {as : List (Action Ws)}
    (h : Unhindered x lo p) (hclock : NonDecreasing as) (hlo : ∀ t ∈ readings as, lo ≤ t)
    (hpaced : PacedAfter x p as) : Runs.StepsMeet step (Passes x) p.1 as := by
  induction as generalizing p lo with
  | nil => trivial
  | cons a as ih =>
      have hreadings : readings (a :: as) = a.env.now :: a.env.later :: readings as := rfl
      rw [NonDecreasing, hreadings, List.pairwise_cons, List.pairwise_cons] at hclock
      rw [hreadings] at hlo
      obtain ⟨hpasses, hstep, hrest⟩ := paced_step h (hlo _ List.mem_cons_self) hpaced
      refine ⟨hpasses, ih hstep hclock.2.2 ?_ hrest⟩
      intro t ht
      exact hclock.1 t (List.mem_cons_of_mem _ ht)

/-- **Who keeps to the limit is not turned away.** -/
theorem paced_passes {x : Identity} {as : List (Action Ws)} (hclock : NonDecreasing as)
    (hpaced : Paced x as) : Runs.StepsMeet step (Passes x) World.start as := by
  cases as with
  | nil => trivial
  | cons a as =>
      refine paced_run (unhindered_start x a.env.now) hclock ?_ ?_
      · intro t ht
        rw [NonDecreasing, readings, List.flatMap_cons, List.cons_append, List.pairwise_cons] at hclock
        rcases List.mem_cons.1 ht with rfl | ht
        · exact Int.le_refl _
        · exact hclock.1 t ht
      · intro t
        have hsecond := hpaced t
        simpa [limiter] using hsecond

/-! ## A socket in its place -/

/-- The socket stands in the room under this identity, and under no other. -/
structure Stands (s : Ws) (x : Identity) (w : World Ws) : Prop where
  alive : s ∉ w.closed
  registered : Registered s x w.room
  only : ∀ y e, w.room.peers.get y = some e → e.ws = s → y = x

/-- The socket is not closed, and it is the one that joins under its identity, and joins
under no other. -/
def LeavesAlone (s : Ws) (x : Identity) (w : World Ws) : Action Ws → Prop
  | .message t env parsed => ∀ y, joinAccepted env t parsed w.room = some y → (t = s ↔ y = x)
  | .close t _ => t ≠ s

theorem Stands.congr {s : Ws} {x : Identity} {w w' : World Ws} (h : Stands s x w)
    (hclosed : w'.closed = w.closed) (hpeers : w'.room.peers = w.room.peers)
    (hsockets : w'.room.sockets = w.room.sockets) : Stands s x w' := by
  refine ⟨hclosed ▸ h.alive, ?_, ?_⟩
  · rw [Registered, hpeers, hsockets]
    exact h.registered
  · rw [hpeers]
    exact h.only

/-- An accepted join, of the socket itself or of another under another identity. -/
theorem registered_join {s t : Ws} {x y : Identity} {room : SignalRoom Ws} (j : Int)
    (h : Registered s x room) (honly : ∀ y e, room.peers.get y = some e → e.ws = s → y = x)
    (hjoin : t = s ↔ y = x) : Registered s x (registered t y j room) ∧
      ∀ z e, (registered t y j room).peers.get z = some e → e.ws = s → z = x := by
  by_cases hts : t = s
  · obtain rfl := hjoin.1 hts
    subst hts
    refine ⟨⟨?_, ⟨t, j⟩, ?_, rfl⟩, ?_⟩
    · rw [get_sockets_registered, if_pos rfl]
    · rw [get_peers_registered, if_pos rfl]
    · intro z e hz hws
      rw [get_peers_registered] at hz
      by_cases hyz : y = z
      · exact hyz.symm
      · rw [if_neg hyz] at hz
        exact honly z e hz hws
  · have hyx : y ≠ x := fun h => hts (hjoin.2 h)
    have hkept : replaced t y room ≠ some s := by
      intro hreplaced
      obtain ⟨e, he, hws, -⟩ := replaced_eq_some_iff.1 hreplaced
      exact hyx (honly y e he hws)
    obtain ⟨hs, e, he, hws⟩ := h
    refine ⟨⟨?_, e, ?_, hws⟩, ?_⟩
    · rw [get_sockets_registered, if_neg hts, if_neg hkept, hs]
    · rw [get_peers_registered, if_neg hyx, he]
    · intro z e hz hws
      rw [get_peers_registered] at hz
      by_cases hyz : y = z
      · rw [if_pos hyz] at hz
        rw [← Option.some.inj hz] at hws
        exact absurd hws hts
      · rw [if_neg hyz] at hz
        exact honly z e hz hws

theorem get_peers_of_onClose {env : Env Ws} {s : Ws} {room : SignalRoom Ws} {y : Identity}
    {e : PeerEntry Ws} (h : (onClose env s room).room.peers.get y = some e) :
    room.peers.get y = some e := by
  rcases onClose_maps env s room with ⟨x, -, hm, -⟩ | ⟨-, hm, -⟩
  · rw [hm, OrdMap.get_delete] at h
    split at h
    · cases h
    · exact h
  · rwa [hm] at h

/-- **The step lemma for a place.** -/
theorem stands_step {s : Ws} {x : Identity} {w : World Ws} {a : Action Ws} (h : Stands s x w)
    (ha : LeavesAlone s x w a) : Stands s x (step w a) := by
  cases a with
  | close t env =>
      have hts : t ≠ s := ha
      simp only [step]
      split
      · exact h
      · refine ⟨?_, h.registered.onClose (Ne.symm hts) env, ?_⟩
        · intro hmem
          rcases List.mem_cons.1 hmem with heq | hmem
          · exact hts heq.symm
          · exact h.alive hmem
        · intro y e hy hws
          exact h.only y e (get_peers_of_onClose hy) hws
  | message t env parsed =>
      simp only [step]
      split
      · exact h
      · have hmaps := onMessage_maps env t parsed w.room
        cases hj : joinAccepted env t parsed w.room with
        | none =>
            rw [hj] at hmaps
            exact h.congr rfl hmaps.1 hmaps.2
        | some y =>
            rw [hj] at hmaps
            obtain ⟨j, hroom⟩ := hmaps
            obtain ⟨hregistered, honly⟩ := registered_join j h.registered h.only (ha y hj)
            rw [← hroom] at hregistered honly
            exact ⟨h.alive, hregistered, honly⟩

/-! ## From one end to the other -/

/-- The data of the relay that the socket sends in an event from one identity to another, if
it sends one that is not too large. -/
def relayed (s : Ws) (x y : Identity) : Action Ws → Option (Option Value)
  | .message t env (some msg) =>
    if t = s ∧ (msg.get "type").bind Value.asStr = some "relay" ∧
        (msg.get "from").bind Value.asStr = some x.val ∧
        (msg.get "to").bind Value.asStr = some y.val ∧
        messageSize env.js (msg.get "data") ≤ maxMessageBytes then
      some (msg.get "data")
    else none
  | _ => none

/-- What the socket sends, in order. -/
def sent (s : Ws) (x y : Identity) (as : List (Action Ws)) : List (Option Value) :=
  as.filterMap (relayed s x y)

theorem sent_cons (s : Ws) (x y : Identity) (a : Action Ws) (as : List (Action Ws)) :
    sent s x y (a :: as) = (relayed s x y a).toList ++ sent s x y as := by
  cases h : relayed s x y a with
  | none => exact List.filterMap_cons_none h
  | some data => exact List.filterMap_cons_some h

/-- The data of an envelope, if it is a relay of the identity for the socket. -/
def Envelope.relay? (u : Ws) (x : Identity) (e : Envelope Ws) : Option (Option Value) :=
  if e.socket = u ∧ e.sender = x ∧ e.type = "relay" then some e.data else none

/-- What the socket receives from the identity, in order. -/
def received (u : Ws) (x : Identity) (out : List (Output Ws)) : List (Option Value) :=
  (envelopes out).filterMap (Envelope.relay? u x)

theorem received_append (u : Ws) (x : Identity) (out out' : List (Output Ws)) :
    received u x (out ++ out') = received u x out ++ received u x out' := by
  rw [received, envelopes_append, List.filterMap_append]
  rfl

/-- What a relay of a registered socket that passes leads to is a matter of its target. -/
theorem envelopes_relay {env : Env Ws} {s : Ws} {msg : Value} {w : World Ws} {x : Identity}
    (hs : s ∉ w.closed) (htype : (msg.get "type").bind Value.asStr = some "relay")
    (hfrom : (msg.get "from").bind Value.asStr = some x.val) (hx : w.room.sockets.get s = some x)
    (hpasses : Passes x w (.message s env (some msg))) :
    envelopes (onMessage env s (some msg) w.room).out =
      envelopes (forward env s "relay" msg (.start (counted env.now x w.room))).out := by
  have hcounted : countedAs s (some msg) w.room = some x := by
    simp only [countedAs, Option.bind_eq_bind, Option.bind_some, htype, hx, hfrom, and_self, if_true]
  have hattempt : attempt w (.message s env (some msg)) = some ⟨x, env.now⟩ := by
    rw [attempt, if_neg hs, hcounted]
    rfl
  have hfree : (countRelay env.now (w.room.rateLimit.get (.identity x))).count ≤
      maxRelayPerWindow := by
    have hadmitted := hpasses _ hattempt rfl
    rw [admitted, if_neg hs, (onMessage_counted env hcounted).2] at hadmitted
    by_contra hfull
    exact hadmitted (if_neg hfull)
  have hsender : isSender env s (msg.get "from") (.start w.room) = (true, .start w.room) :=
    isSender_of_holds hx hfrom
  have hcheck : checkRateLimit env s (.start w.room) = (true, .start (counted env.now x w.room)) := by
    rcases checkRateLimit_cases env hx with ⟨hfull, -⟩ | ⟨-, hcheck⟩
    · exact absurd hfree (Nat.not_le.2 hfull)
    · exact hcheck
  simp only [onMessage, envelopes_recover, handleMessage_relay htype, handleRelay, hsender, hcheck]

theorem get_of_asStr {value : Option Value} {text : String}
    (h : value.bind Value.asStr = some text) : value = some (.string text) := by
  obtain ⟨v, hv, htext⟩ := Option.bind_eq_some_iff.1 h
  rw [hv, Value.asStr_eq_some_iff.1 htext]

theorem isIdentity_string (x : Identity) : isIdentity (some (.string x.val)) = some x := by
  simp [isIdentity, x.2]

/-- Passing on a relay of the identity, in a room where the socket is the target of one
identity alone. -/
theorem forward_received {env : Env Ws} {s u : Ws} {msg : Value} {x y : Identity}
    {room : SignalRoom Ws} (hfrom : (msg.get "from").bind Value.asStr = some x.val)
    (hu : ∃ e, room.peers.get y = some e ∧ e.ws = u)
    (honly : ∀ z e, room.peers.get z = some e → e.ws = u → z = y) (hsend : env.sendFails u = false) :
    (envelopes (forward env s "relay" msg (.start room)).out).filterMap (Envelope.relay? u x) =
      if (msg.get "to").bind Value.asStr = some y.val ∧
          messageSize env.js (msg.get "data") ≤ maxMessageBytes then [msg.get "data"] else [] := by
  have hsender : isIdentity (msg.get "from") = some x := by
    rw [get_of_asStr hfrom, isIdentity_string]
  have hown : ∀ text, envelopes ((Turn.start room).send env s (.error text)).out = [] :=
    fun text => (envelopes_send rfl ..).trans rfl
  cases htarget : isIdentity (msg.get "to") with
  | none =>
      have hto : (msg.get "to").bind Value.asStr ≠ some y.val := by
        intro hto
        rw [get_of_asStr hto, isIdentity_string] at htarget
        cases htarget
      simp only [forward, hsender, htarget, hown, hto, false_and, if_false, List.filterMap_nil]
  | some z =>
      have hto : (msg.get "to").bind Value.asStr = some z.val := by
        rw [isIdentity_eq_some htarget]
        rfl
      by_cases hsize : maxMessageBytes < messageSize env.js (msg.get "data")
      · have hlarge : ¬ messageSize env.js (msg.get "data") ≤ maxMessageBytes := Nat.not_le.2 hsize
        simp only [forward, hsender, htarget, gt_iff_lt, if_pos hsize, hown, hlarge, and_false,
          if_false, List.filterMap_nil]
      · have hfits : messageSize env.js (msg.get "data") ≤ maxMessageBytes := Nat.not_lt.1 hsize
        simp only [forward, hsender, htarget, gt_iff_lt, if_neg hsize, Turn.start_room, hto, hfits,
          and_true, Option.some.injEq]
        by_cases hzy : z = y
        · obtain ⟨e, he, rfl⟩ := hu
          subst hzy
          simp [he, Turn.send, Turn.start, hsend, envelopes, Output.envelope?, Envelope.relay?]
        · have hne : z.val ≠ y.val := fun h => hzy (Subtype.ext h)
          rw [if_neg hne]
          cases he : room.peers.get z with
          | none => rfl
          | some e =>
              have hws : e.ws ≠ u := fun h => hzy (honly z e he h)
              simp only [Turn.send, Turn.start, Bool.false_eq_true, if_false]
              split
              · rfl
              · simp [envelopes, Output.envelope?, Envelope.relay?, hws]

/-- **The step lemma for what arrives.**  An event brings the one socket just what the other
has sent in it. -/
theorem received_step {s u : Ws} {x y : Identity} {w : World Ws} {a : Action Ws} (hspeaks : Speaks w)
    (hs : Stands s x w) (hu : Stands u y w) (hpasses : Passes x w a)
    (hreaches : ∀ env parsed, a = .message s env parsed → env.sendFails u = false) :
    received u x (step w a).outbox = received u x w.outbox ++ (relayed s x y a).toList := by
  cases a with
  | close t env =>
      have hnone : relayed s x y (.close t env) = none := rfl
      have hquiet : received u x (onClose env t w.room).out = [] := by
        rw [received, envelopes_onClose, List.filterMap_nil]
      rw [hnone, Option.toList_none, List.append_nil, step]
      split
      · rfl
      · rw [received_append, hquiet, List.append_nil]
  | message t env parsed =>
      by_cases ht : t ∈ w.closed
      · have hts : t ≠ s := by
          rintro rfl
          exact hs.alive ht
        have hnone : relayed s x y (.message t env parsed) = none := by
          cases parsed with
          | none => rfl
          | some msg => rw [relayed, if_neg fun h => hts h.1]
        rw [step, if_pos ht, hnone, Option.toList_none, List.append_nil]
      · rw [step, if_neg ht, received_append]
        congr 1
        by_cases hrelay : ∃ msg, parsed = some msg ∧ t = s ∧
            (msg.get "type").bind Value.asStr = some "relay" ∧
            (msg.get "from").bind Value.asStr = some x.val
        · obtain ⟨msg, rfl, rfl, htype, hfrom⟩ := hrelay
          have hforward := @forward_received Ws _ env t u msg x y (counted env.now x w.room) hfrom
            hu.registered.2 hu.only (hreaches env _ rfl)
          rw [received, envelopes_relay ht htype hfrom hs.registered.1 hpasses, hforward]
          simp only [relayed, htype, hfrom, true_and]
          split
          · rfl
          · rfl
        · have hnone : relayed s x y (.message t env parsed) = none := by
            cases parsed with
            | none => rfl
            | some msg =>
                rw [relayed, if_neg fun h => hrelay ⟨msg, rfl, h.1, h.2.1, h.2.2.1⟩]
          rw [hnone, Option.toList_none, received]
          -- whoever speaks as the identity is the socket that stands there
          rcases onMessage_envelopes env t parsed w.room with h | ⟨msg, e, hp, h, htype, -, hforwards⟩
          · rw [h, List.filterMap_nil]
          · have hother : e.relay? u x = none := by
              refine if_neg ?_
              rintro ⟨-, rfl, hrelayed⟩
              refine hrelay ⟨msg, hp, ?_, ?_, ?_⟩
              · have hlast := hspeaks.socket ht hforwards.holds
                rw [hspeaks.socket hs.alive hs.registered.1] at hlast
                exact (Option.some.inj hlast).symm
              · rw [htype, hrelayed]
                rfl
              · rw [hforwards.sender]
                rfl
            rw [h, List.filterMap_cons, hother, List.filterMap_nil]

/-! ## Runs -/

/-- Both sockets are left alone, and what the one sends does not fail to reach the other. -/
structure Undisturbed (s u : Ws) (x y : Identity) (w : World Ws) (a : Action Ws) : Prop where
  sender : LeavesAlone s x w a
  target : LeavesAlone u y w a
  reaches : ∀ env parsed, a = .message s env parsed → env.sendFails u = false

theorem received_run {s u : Ws} {x y : Identity} {w : World Ws} {as : List (Action Ws)}
    (hspeaks : Speaks w) (hs : Stands s x w) (hu : Stands u y w)
    (hpasses : Runs.StepsMeet step (Passes x) w as)
    (hcalm : Runs.StepsMeet step (Undisturbed s u x y) w as) :
    received u x (Runs.run step w as).outbox = received u x w.outbox ++ sent s x y as := by
  induction as generalizing w with
  | nil => exact (List.append_nil _).symm
  | cons a as ih =>
      obtain ⟨hpass, hpasses⟩ := hpasses
      obtain ⟨hquiet, hcalm⟩ := hcalm
      have hstep := received_step hspeaks hs hu hpass hquiet.reaches
      have hrest := ih (speaks_step w a hspeaks) (stands_step hs hquiet.sender)
        (stands_step hu hquiet.target) hpasses hcalm
      rw [Runs.run_cons, hrest, hstep, List.append_assoc]
      rw [sent_cons]

/-- **Nothing is lost between two that stand.**  After any run, let two sockets stand in the
room, each under one identity.  As long as neither is closed or replaced or joins under another
identity, and sending to the one does not fail, it receives just the relays that the other sends
it and that are not too large, each once and in order, whatever anyone else does in between;
provided the relays under the sender's identity keep to the limit in every second. -/
theorem relays_delivered (as bs : List (Action Ws)) (s u : Ws) (x y : Identity)
    (hclock : NonDecreasing (as ++ bs)) (hpaced : Paced x (as ++ bs))
    (hs : Stands s x (Runs.run step World.start as)) (hu : Stands u y (Runs.run step World.start as))
    (hcalm : Runs.StepsMeet step (Undisturbed s u x y) (Runs.run step World.start as) bs) :
    received u x (Runs.run step World.start (as ++ bs)).outbox =
      received u x (Runs.run step World.start as).outbox ++ sent s x y bs := by
  have hpasses := (Runs.stepsMeet_append step).1 (paced_passes hclock hpaced)
  rw [Runs.run_append]
  exact received_run (speaks_run as) hs hu hpasses.2 hcalm

/-! ## Two relays, and somebody joins in between -/

theorem length_attempts_le (w : World Ws) (as : List (Action Ws)) :
    (attempts w as).length ≤ as.length := by
  induction as generalizing w with
  | nil => exact Nat.le_refl _
  | cons a as ih =>
      have hone : (attempt w a).toList.length ≤ 1 := by
        cases attempt w a with
        | none => exact Nat.zero_le _
        | some r => exact Nat.le_refl _
      rw [attempts, List.length_append, List.length_cons]
      have hrest := ih (step w a)
      omega

/-- A short run keeps to the limit. -/
theorem paced_of_length {as : List (Action Ws)} (h : as.length ≤ maxRelayPerWindow) (x : Identity) :
    Paced x as := by
  intro t
  exact (List.countP_le_length.trans (length_attempts_le _ _)).trans h

namespace Sample

/-- A socket sends a relay from one identity to another. -/
def relayTo (s : Nat) (x y : Identity) (data : String) : Action Nat :=
  .message s env (some (.object [("type", .string "relay"), ("from", .string x.val),
    ("to", .string y.val), ("data", .string data)]))

/-- Two sockets in a room. -/
def pair : List (Action Nat) := [join 1 first, join 2 second]

/-- The first sends twice, and a third joins in between. -/
def exchange : List (Action Nat) :=
  [relayTo 1 first second "a", join 3 third, relayTo 1 first second "b"]

end Sample

theorem stands_of_entries {s : Ws} {x : Identity} {w : World Ws} (halive : s ∉ w.closed)
    (hs : w.room.sockets.get s = some x) (hx : (w.room.peers.get x).map PeerEntry.ws = some s)
    (honly : ∀ p ∈ w.room.peers.entries, p.2.ws = s → p.1 = x) : Stands s x w := by
  refine ⟨halive, ⟨hs, Option.map_eq_some_iff.1 hx⟩, ?_⟩
  intro y e hy
  exact honly (y, e) (OrdMap.mem_entries_iff.2 hy)

/-- An accepted join is one under the identity it names. -/
theorem joinAccepted_identity {env : Env Ws} {s : Ws} {msg : Value} {room : SignalRoom Ws}
    {x : Identity} (h : joinAccepted env s (some msg) room = some x) :
    isIdentity (msg.get "identity") = some x := by
  simp only [joinAccepted, joinAccepted_type h, Option.bind_eq_bind, Option.bind_some, if_true] at h
  obtain ⟨y, hy, h⟩ := Option.bind_eq_some_iff.1 h
  rw [hy]
  cases hp : room.peers.get y with
  | none =>
      rw [hp] at h
      exact h
  | some entry =>
      rw [hp] at h
      exact (Option.ite_none_right_eq_some.1 h).2

namespace Sample

theorem undisturbed_relayTo (w : World Nat) (data : String) :
    Undisturbed 1 2 first second w (relayTo 1 first second data) := by
  refine ⟨?_, ?_, ?_⟩
  · rintro y ⟨⟩
  · rintro y ⟨⟩
  · rintro _ _ ⟨⟩
    rfl

theorem undisturbed_join (w : World Nat) : Undisturbed 1 2 first second w (join 3 third) := by
  have hthird : ∀ y, joinAccepted env 3 (some (.object [("type", .string "join"),
      ("identity", .string third.val)])) w.room = some y → y = third := by
    intro y hy
    have hidentity := joinAccepted_identity hy
    exact Option.some.inj (hidentity.symm.trans (isIdentity_string third))
  have hne : third ≠ first ∧ third ≠ second := by decide +kernel
  refine ⟨?_, ?_, ?_⟩
  · intro y hy
    rw [hthird y hy]
    simp [hne.1]
  · intro y hy
    rw [hthird y hy]
    simp [hne.2]
  · rintro _ _ ⟨⟩

end Sample

/-- Both relays arrive. -/
theorem relays_delivered_pair :
    received 2 Sample.first
        (Runs.run step World.start (Sample.pair ++ Sample.exchange)).outbox =
      received 2 Sample.first (Runs.run step World.start Sample.pair).outbox ++
        sent 1 Sample.first Sample.second Sample.exchange := by
  apply relays_delivered Sample.pair Sample.exchange 1 2 Sample.first Sample.second
  · decide
  · exact paced_of_length (by decide) Sample.first
  · exact stands_of_entries (by decide +kernel) (by decide +kernel) (by decide +kernel)
      (by decide +kernel)
  · exact stands_of_entries (by decide +kernel) (by decide +kernel) (by decide +kernel)
      (by decide +kernel)
  · exact ⟨Sample.undisturbed_relayTo _ "a", Sample.undisturbed_join _,
      Sample.undisturbed_relayTo _ "b", trivial⟩

end Signal
end FolkAround
