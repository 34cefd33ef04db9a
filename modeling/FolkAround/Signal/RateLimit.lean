import FolkAround.Lib.FixedWindow
import FolkAround.Signal.Forwarding

/-!
# The rate limit

Relays are counted under the identity their socket holds, in windows of a second that
open with the first relay after the one before is over.

* `Relay`, `admitted` — a relay that passed the limit.
* `history` — all of them in a run, in order.
* `NonDecreasing` — a clock that never goes back.
* `onMessage_rateLimit` — what a message does to the counters.
* `limiter` — the counter of one identity is a limiter with fixed windows; `auditStep`
  moves it by one event or not at all.
* `relays_per_identity` — the bound for an identity.
-/

namespace FolkAround
namespace Signal

variable {Ws : Type} [DecidableEq Ws]

/-! ## Relays that pass -/

/-- A relay that passed: the socket it came from, the identity it was counted under, when
it came, and when its window is over. -/
structure Relay (Ws : Type) where
  socket : Ws
  identity : Identity
  time : Int
  resetAt : Int

/-- The relay a message is, if it passes the check of the sender and the rate limit. -/
def relayAdmitted (env : Env Ws) (server : Ws) (parsed : Option Value) (room : SignalRoom Ws) :
    Option (Relay Ws) := do
  let msg ← parsed
  let type ← (msg.get "type").bind Value.asStr
  if type = "relay" then
    match isSender env server (msg.get "from") (.start room) with
    | (false, _) => none
    | (true, t) =>
      match checkRateLimit env server t with
      | (false, _) => none
      | (true, t) =>
        let identity ← t.room.sockets.get server
        let entry ← t.room.rateLimit.get (rateKey server t.room)
        some ⟨server, identity, env.now, entry.resetAt⟩
  else none

/-- The relay that passes in an event, if one does. -/
def admitted (w : World Ws) : Action Ws → Option (Relay Ws)
  | .message s env parsed => if s ∈ w.closed then none else relayAdmitted env s parsed w.room
  | .close .. => none

/-- One event, with the relays that have passed so far. -/
def auditStep (p : World Ws × List (Relay Ws)) (a : Action Ws) : World Ws × List (Relay Ws) :=
  (step p.1 a, p.2 ++ (admitted p.1 a).toList)

/-- The relays that pass in a run, in order. -/
def history (as : List (Action Ws)) : List (Relay Ws) := (Runs.run auditStep (.start, []) as).2

/-- The record is kept beside the run, and does not change it. -/
theorem run_auditStep_fst (p : World Ws × List (Relay Ws)) (as : List (Action Ws)) :
    (Runs.run auditStep p as).1 = Runs.run step p.1 as := by
  induction as generalizing p with
  | nil => rfl
  | cons a as ih =>
      rw [Runs.run_cons, Runs.run_cons, ih]
      rfl

/-! ## The clock -/

def Action.env : Action Ws → Env Ws
  | .message _ env _ => env
  | .close _ env => env

/-- The readings of the clock that a run can take. -/
def readings (as : List (Action Ws)) : List Int := as.flatMap fun a => [a.env.now, a.env.later]

/-- The clock never goes back. -/
def NonDecreasing (as : List (Action Ws)) : Prop := (readings as).Pairwise (· ≤ ·)

instance (as : List (Action Ws)) : Decidable (NonDecreasing as) :=
  inferInstanceAs (Decidable (List.Pairwise _ _))

/-! ## What a message does to the counters -/

/-- The identity under which a message is counted: it is a relay, and its socket holds
the identity it names. -/
def countedAs (server : Ws) (parsed : Option Value) (room : SignalRoom Ws) : Option Identity := do
  let msg ← parsed
  let type ← (msg.get "type").bind Value.asStr
  let identity ← room.sockets.get server
  if type = "relay" ∧ (msg.get "from").bind Value.asStr = some identity.val then some identity
  else none

theorem isSender_eq_true {env : Env Ws} {s : Ws} {identity : Option Value} {t t' : Turn Ws}
    (h : isSender env s identity t = (true, t')) : t' = t ∧
      ∃ x, t.room.sockets.get s = some x ∧ identity.bind Value.asStr = some x.val := by
  unfold isSender at h
  cases hs : t.room.sockets.get s with
  | none =>
      rw [hs] at h
      exact absurd (congrArg Prod.fst h) (by simp)
  | some x =>
      rw [hs] at h
      by_cases hx : identity.bind Value.asStr = some x.val
      · simp only [if_pos hx, Prod.mk.injEq, true_and] at h
        exact ⟨h.symm, x, rfl, hx⟩
      · simp only [if_neg hx] at h
        exact absurd (congrArg Prod.fst h) (by simp)

theorem isSender_of_holds {env : Env Ws} {s : Ws} {identity : Option Value} {t : Turn Ws}
    {x : Identity} (hs : t.room.sockets.get s = some x)
    (hx : identity.bind Value.asStr = some x.val) : isSender env s identity t = (true, t) := by
  unfold isSender
  simp only [hs, if_pos hx]

/-- The room in which one more relay was counted under an identity. -/
def counted (now : Int) (x : Identity) (room : SignalRoom Ws) : SignalRoom Ws :=
  let entry := countRelay now (room.rateLimit.get (.identity x))
  { room with rateLimit := room.rateLimit.set (.identity x) entry }

/-- The check of a relay by a socket that holds an identity. -/
theorem checkRateLimit_cases (env : Env Ws) {s : Ws} {room : SignalRoom Ws} {x : Identity}
    (hs : room.sockets.get s = some x) :
    (maxRelayPerWindow < (countRelay env.now (room.rateLimit.get (.identity x))).count ∧
        ∃ t, checkRateLimit env s (.start room) = (false, t) ∧ t.room = counted env.now x room) ∨
      ((countRelay env.now (room.rateLimit.get (.identity x))).count ≤ maxRelayPerWindow ∧
        checkRateLimit env s (.start room) = (true, .start (counted env.now x room))) := by
  have hkey : rateKey s room = .identity x := by
    rw [rateKey, hs]
  simp only [checkRateLimit, Turn.start_room, hkey]
  by_cases hfull : maxRelayPerWindow <
      (countRelay env.now (room.rateLimit.get (.identity x))).count
  · rw [if_pos hfull]
    exact .inl ⟨hfull, _, rfl, Turn.send_room ..⟩
  · rw [if_neg hfull]
    exact .inr ⟨Nat.not_lt.1 hfull, rfl⟩

/-- A message that is counted under an identity. -/
theorem countedAs_eq_some {s : Ws} {parsed : Option Value} {room : SignalRoom Ws} {x : Identity}
    (h : countedAs s parsed room = some x) : ∃ msg, parsed = some msg ∧
      (msg.get "type").bind Value.asStr = some "relay" ∧ room.sockets.get s = some x ∧
      (msg.get "from").bind Value.asStr = some x.val := by
  simp only [countedAs, Option.bind_eq_bind] at h
  obtain ⟨msg, hmsg, h⟩ := Option.bind_eq_some_iff.1 h
  obtain ⟨type, htype, h⟩ := Option.bind_eq_some_iff.1 h
  obtain ⟨y, hs, h⟩ := Option.bind_eq_some_iff.1 h
  by_cases hc : type = "relay" ∧ (msg.get "from").bind Value.asStr = some y.val
  · rw [if_pos hc, Option.some.injEq] at h
    subst h
    exact ⟨msg, hmsg, htype.trans (congrArg some hc.1), hs, hc.2⟩
  · rw [if_neg hc] at h
    exact absurd h (by simp)

theorem handleMessage_relay {env : Env Ws} {s : Ws} {msg : Value} {t : Turn Ws}
    (htype : (msg.get "type").bind Value.asStr = some "relay") :
    handleMessage env s msg t = handleRelay env s msg t := by
  simp [handleMessage, isNull_of_type htype, htype]

/-- A message that is counted: the counter goes up, and the message passes if the window
is not full. -/
theorem onMessage_counted (env : Env Ws) {s : Ws} {parsed : Option Value} {room : SignalRoom Ws}
    {x : Identity} (h : countedAs s parsed room = some x) :
    (onMessage env s parsed room).room = counted env.now x room ∧
      relayAdmitted env s parsed room =
        let entry := countRelay env.now (room.rateLimit.get (.identity x))
        if entry.count ≤ maxRelayPerWindow then some ⟨s, x, env.now, entry.resetAt⟩ else none := by
  obtain ⟨msg, rfl, htype, hs, hx⟩ := countedAs_eq_some h
  have hsender : isSender env s (msg.get "from") (.start room) = (true, .start room) :=
    isSender_of_holds hs hx
  simp only [onMessage, Turn.recover_room, handleMessage_relay htype, handleRelay, hsender,
    relayAdmitted, htype,
    Option.bind_eq_bind, Option.bind_some, if_true]
  rcases checkRateLimit_cases env hs with ⟨hfull, t, hcheck, hroom⟩ | ⟨hfree, hcheck⟩
  · simp only [hcheck, hroom, if_neg (Nat.not_le.2 hfull), and_self]
  · have hkey : rateKey s (counted env.now x room) = .identity x := by
      rw [rateKey]
      simp only [counted, hs]
    simp only [hcheck, forward_room, Turn.start_room, if_pos hfree, hkey, true_and]
    simp only [counted, hs, OrdMap.get_set_self, Option.bind_some]

/-- A relay that is not counted failed the check of its sender. -/
theorem isSender_of_not_counted (env : Env Ws) {s : Ws} {msg : Value} {room : SignalRoom Ws}
    (htype : (msg.get "type").bind Value.asStr = some "relay")
    (h : countedAs s (some msg) room = none) :
    (isSender env s (msg.get "from") (.start room)).1 = false := by
  cases hsender : isSender env s (msg.get "from") (.start room) with
  | mk passed t =>
      cases passed with
      | false => rfl
      | true =>
          obtain ⟨-, x, hs, hx⟩ := isSender_eq_true hsender
          rw [Turn.start_room] at hs
          simp only [countedAs, Option.bind_eq_bind, Option.bind_some, htype, hs, hx, and_self,
            if_true] at h
          exact absurd h (by simp)

theorem handleJoin_rateLimit (env : Env Ws) (s : Ws) {msg : Value} (room : SignalRoom Ws)
    (htype : (msg.get "type").bind Value.asStr = some "join") :
    (handleJoin env s msg (.start room)).room.rateLimit = room.rateLimit := by
  cases h : joinAccepted env s (some msg) room with
  | none =>
      obtain ⟨m, h | ⟨reason, h⟩⟩ := handleJoin_rejected htype h
      · rw [h, Turn.send_room, Turn.start_room]
      · rw [h, Turn.close_room, Turn.send_room, Turn.start_room]
  | some x =>
      obtain ⟨j, h⟩ := handleJoin_accepted h
      rw [h, acceptJoin_beforeJoin_room, registered]

/-- A message that is not counted leaves the counters alone, and does not pass as a relay. -/
theorem onMessage_not_counted (env : Env Ws) {s : Ws} {parsed : Option Value}
    {room : SignalRoom Ws} (h : countedAs s parsed room = none) :
    (onMessage env s parsed room).room.rateLimit = room.rateLimit ∧
      relayAdmitted env s parsed room = none := by
  cases parsed with
  | none => simp [onMessage, relayAdmitted]
  | some msg =>
      by_cases htype : (msg.get "type").bind Value.asStr = some "relay"
      · have hfalse := isSender_of_not_counted env htype h
        have hroom := isSender_room env s (msg.get "from") (.start room)
        simp only [onMessage, Turn.recover_room, handleMessage_relay htype, handleRelay,
          relayAdmitted, htype,
          Option.bind_eq_bind, Option.bind_some, if_true]
        cases hsender : isSender env s (msg.get "from") (.start room) with
        | mk passed t =>
            rw [hsender] at hfalse hroom
            obtain rfl : passed = false := hfalse
            exact ⟨congrArg SignalRoom.rateLimit hroom, rfl⟩
      · constructor
        · by_cases hjoin : (msg.get "type").bind Value.asStr = some "join"
          · rw [onMessage, Turn.recover_room, handleMessage_join hjoin]
            exact handleJoin_rateLimit env s room hjoin
          · simp only [onMessage, Turn.recover_room, handleMessage, hjoin, htype, if_false]
            split
            · rfl
            · split
              · simp
              · split
                · simp
                · split <;> simp
        · simp only [relayAdmitted, Option.bind_eq_bind, Option.bind_some]
          cases hs : (msg.get "type").bind Value.asStr with
          | none => rfl
          | some type =>
              have hne : type ≠ "relay" := fun hc => htype (hs.trans (congrArg some hc))
              simp only [Option.bind_some, if_neg hne]

theorem leave_rateLimit (env : Env Ws) (s : Ws) (room : SignalRoom Ws) :
    (leave env s room).room.rateLimit = room.rateLimit := by
  by_cases h : ∃ x, Registered s x room
  · obtain ⟨x, hx⟩ := h
    rw [leave_of_registered env hx, Turn.broadcast_room, Turn.modify_room (Turn.start_thrown room),
      Turn.start_room]
  · rw [leave_of_not_registered env (not_exists.1 h), Turn.start_room]

/-- A close deletes what is kept under the socket, if it comes that far. -/
theorem rateLimit_onClose (env : Env Ws) (s : Ws) (room : SignalRoom Ws) :
    (onClose env s room).room.rateLimit = room.rateLimit.delete (.socket s) ∨
      (onClose env s room).room.rateLimit = room.rateLimit := by
  have hleave := leave_rateLimit env s room
  by_cases h : (leave env s room).thrown = false
  · left
    rw [onClose_room h]
    exact congrArg (OrdMap.delete · _) hleave
  · have hstop : onClose env s room = leave env s room := by
      simp [onClose, Turn.modify, h]
    right
    rw [hstop, hleave]

/-- A close touches no counter of an identity. -/
theorem get_rateLimit_onClose (env : Env Ws) (s : Ws) (room : SignalRoom Ws) (x : Identity) :
    (onClose env s room).room.rateLimit.get (.identity x) = room.rateLimit.get (.identity x) := by
  rcases rateLimit_onClose env s room with h | h
  · rw [h, OrdMap.get_delete_of_ne (by simp)]
  · rw [h]

/-- A close adds no counter. -/
theorem get_of_get_rateLimit_onClose {env : Env Ws} {s : Ws} {room : SignalRoom Ws}
    {k : RateKey Ws} {e : RateEntry} (h : (onClose env s room).room.rateLimit.get k = some e) :
    room.rateLimit.get k = some e := by
  rcases rateLimit_onClose env s room with hmap | hmap
  · rw [hmap, OrdMap.get_delete] at h
    split at h
    · exact absurd h (by simp)
    · exact h
  · rwa [hmap] at h

/-! ## The counter of an identity -/

def RateEntry.toWindow (entry : RateEntry) : FixedWindow.Window := ⟨entry.count, entry.resetAt⟩

theorem toWindow_countRelay (now : Int) (entry : Option RateEntry) :
    (countRelay now entry).toWindow =
      FixedWindow.tick relayRateLimitWindowMs now (entry.map RateEntry.toWindow) := by
  unfold countRelay FixedWindow.tick
  cases entry with
  | none => rfl
  | some entry =>
      simp only [Option.map_some, RateEntry.toWindow, ge_iff_le]
      split <;> rfl

def Relay.toPassed (r : Relay Ws) : FixedWindow.Passed := ⟨r.time, r.resetAt⟩

/-- The counter of an identity, with what passed under it. -/
def limiter (x : Identity) (p : World Ws × List (Relay Ws)) : FixedWindow.State where
  window := (p.1.room.rateLimit.get (.identity x)).map RateEntry.toWindow
  log := (p.2.filter fun r => r.identity = x).map Relay.toPassed

/-- The counter of an identity depends on its entry and on what passed under it. -/
theorem limiter_congr {x : Identity} {p p' : World Ws × List (Relay Ws)}
    (hentry : p'.1.room.rateLimit.get (.identity x) = p.1.room.rateLimit.get (.identity x))
    (hlog : (p'.2.filter fun r => r.identity = x) = p.2.filter fun r => r.identity = x) :
    limiter x p' = limiter x p := by
  rw [limiter, limiter, hentry, hlog]

/-- A relay that is counted under an identity, for that identity. -/
theorem limiter_counted (x : Identity) (p : World Ws × List (Relay Ws)) (w : World Ws) (s : Ws)
    (now : Int) (hroom : w.room = counted now x p.1.room) :
    limiter x (w, p.2 ++ (if (countRelay now (p.1.room.rateLimit.get (.identity x))).count ≤
        maxRelayPerWindow then some ⟨s, x, now,
          (countRelay now (p.1.room.rateLimit.get (.identity x))).resetAt⟩ else none).toList) =
      (limiter x p).event relayRateLimitWindowMs maxRelayPerWindow now := by
  have hwindow : (w.room.rateLimit.get (.identity x)).map RateEntry.toWindow =
      some (FixedWindow.tick relayRateLimitWindowMs now (limiter x p).window) := by
    rw [hroom]
    simp only [counted, OrdMap.get_set_self, Option.map_some, toWindow_countRelay, limiter]
  have htick := toWindow_countRelay now (p.1.room.rateLimit.get (.identity x))
  rw [FixedWindow.State.event, limiter, hwindow]
  simp only [limiter, ← htick, RateEntry.toWindow]
  by_cases hfree : (countRelay now (p.1.room.rateLimit.get (.identity x))).count ≤
      maxRelayPerWindow
  · rw [if_pos hfree, if_pos hfree]
    simp [List.filter_append, Relay.toPassed]
  · rw [if_neg hfree, if_neg hfree]
    simp

/-- **One event, for one identity.**  Its counter stays as it is, or a relay is counted. -/
theorem limiter_auditStep (x : Identity) (p : World Ws × List (Relay Ws)) (a : Action Ws) :
    limiter x (auditStep p a) = limiter x p ∨
      limiter x (auditStep p a) =
        (limiter x p).event relayRateLimitWindowMs maxRelayPerWindow a.env.now := by
  cases a with
  | close s env =>
      left
      apply limiter_congr
      · simp only [auditStep, step]
        split
        · rfl
        · exact get_rateLimit_onClose env s p.1.room x
      · simp [auditStep, admitted]
  | message s env parsed =>
      by_cases hs : s ∈ p.1.closed
      · left
        apply limiter_congr
        · simp [auditStep, step, hs]
        · simp [auditStep, admitted, hs]
      · cases hcount : countedAs s parsed p.1.room with
        | none =>
            obtain ⟨hroom, hnone⟩ := onMessage_not_counted env hcount
            left
            apply limiter_congr
            · simp only [auditStep, step, if_neg hs, hroom]
            · simp [auditStep, admitted, hs, hnone]
        | some y =>
            obtain ⟨hroom, hsome⟩ := onMessage_counted env hcount
            by_cases hxy : y = x
            · right
              subst hxy
              rw [auditStep, admitted, if_neg hs, hsome]
              apply limiter_counted
              simp only [step, if_neg hs, hroom]
            · left
              apply limiter_congr
              · simp only [auditStep, step, if_neg hs, hroom, counted]
                exact OrdMap.get_set_of_ne (by simpa using hxy)
              · simp only [auditStep, admitted, if_neg hs, hsome]
                split <;> simp [List.filter_append, hxy]

/-! ## The bound for an identity -/

/-- The counter of every identity is in order, by the clock so far. -/
def Limited (lo : Int) (p : World Ws × List (Relay Ws)) : Prop :=
  ∀ x, FixedWindow.Inv relayRateLimitWindowMs maxRelayPerWindow lo (limiter x p)

theorem limited_auditStep {lo : Int} {p : World Ws × List (Relay Ws)} (h : Limited lo p)
    {a : Action Ws} (hlo : lo ≤ a.env.now) : Limited a.env.now (auditStep p a) := by
  intro x
  rcases limiter_auditStep x p a with hstep | hstep
  · rw [hstep]
    exact (h x).mono hlo
  · rw [hstep]
    exact (h x).event (by decide) hlo

theorem limited_run {lo : Int} {p : World Ws × List (Relay Ws)} (h : Limited lo p)
    {as : List (Action Ws)} (hclock : NonDecreasing as) (hlo : ∀ t ∈ readings as, lo ≤ t) :
    ∃ hi, Limited hi (Runs.run auditStep p as) := by
  induction as generalizing p lo with
  | nil => exact ⟨lo, h⟩
  | cons a as ih =>
      have hreadings : readings (a :: as) = a.env.now :: a.env.later :: readings as := rfl
      rw [NonDecreasing, hreadings, List.pairwise_cons, List.pairwise_cons] at hclock
      rw [hreadings] at hlo
      have hnow : lo ≤ a.env.now := hlo _ List.mem_cons_self
      apply ih (limited_auditStep h hnow) hclock.2.2
      intro t ht
      exact hclock.1 t (List.mem_cons_of_mem _ ht)

theorem limited_start (lo : Int) : Limited lo ((World.start, []) : World Ws × List (Relay Ws)) :=
  fun _ => FixedWindow.inv_start _ _ lo

/-- After a run the counters are in order. -/
theorem limited_history {as : List (Action Ws)} (hclock : NonDecreasing as) :
    ∃ hi, Limited hi (Runs.run auditStep ((World.start, []) : World Ws × List (Relay Ws)) as) := by
  cases as with
  | nil => exact ⟨0, limited_start 0⟩
  | cons a as =>
      apply limited_run (limited_start a.env.now) hclock
      intro t ht
      rw [NonDecreasing, readings, List.flatMap_cons, List.cons_append, List.pairwise_cons] at hclock
      rcases List.mem_cons.1 ht with rfl | ht
      · exact Int.le_refl _
      · exact hclock.1 t ht

/-- What is counted for an identity. -/
theorem countP_limiter (x : Identity) (p : World Ws × List (Relay Ws))
    (q : FixedWindow.Passed → Prop) [DecidablePred q] :
    (limiter x p).log.countP (fun a => q a) =
      p.2.countP fun r => r.identity = x ∧ q r.toPassed := by
  rw [limiter, List.countP_map, List.countP_filter]
  congr 1
  funext r
  simp [Bool.and_comm]

/-- In any second. -/
theorem relays_interval_le {as : List (Action Ws)} (hclock : NonDecreasing as) (x : Identity)
    (t : Int) :
    (history as).countP (fun r => r.identity = x ∧ t ≤ r.time ∧ r.time < t + 1000) ≤
      2 * maxRelayPerWindow := by
  obtain ⟨hi, hlimited⟩ := limited_history hclock
  have h := (hlimited x).countP_interval_le t
  rw [countP_limiter] at h
  exact h

/-- **The rate limit of an identity.**  Whatever sockets come, go and join under it, of
the relays sent as an identity twice the maximum pass in any second at most, and the
maximum in one window; a window is a second long. -/
theorem relays_per_identity (as : List (Action Ws)) (hclock : NonDecreasing as) (x : Identity) :
    (∀ t, (history as).countP (fun r => r.identity = x ∧ t ≤ r.time ∧ r.time < t + 1000) ≤
        2 * maxRelayPerWindow) ∧
      (∀ resetAt, (history as).countP (fun r => r.identity = x ∧ r.resetAt = resetAt) ≤
        maxRelayPerWindow) ∧
      ∀ r ∈ history as, r.identity = x → r.resetAt - 1000 ≤ r.time ∧ r.time < r.resetAt := by
  obtain ⟨hi, hlimited⟩ := limited_history hclock
  have hinv := hlimited x
  refine ⟨relays_interval_le hclock x, ?_, ?_⟩
  · intro resetAt
    have h := hinv.full resetAt
    rw [countP_limiter] at h
    exact h
  · intro r hr hx
    apply hinv.inside r.toPassed
    exact List.mem_map.2 ⟨r, List.mem_filter.2 ⟨hr, by simpa using hx⟩, rfl⟩

namespace Sample

def third : Identity := ⟨String.ofList (List.replicate 64 'c'), by decide +kernel⟩

/-- At that time a socket sends a relay as an identity, to the same identity. -/
def relayAt (t : Int) (s : Nat) (x : Identity) : Action Nat :=
  .message s { env with now := t, later := t } (some (.object [("type", .string "relay"),
    ("from", .string x.val), ("to", .string x.val), ("data", .null)]))

/-- A socket joins under an identity and sends as many relays. -/
def burst (s : Nat) (x : Identity) (count : Nat) : List (Action Nat) :=
  join s x :: List.replicate count (relayAt 0 s x)

/-- One relay opens a window; one more than the others it has room for come in its last
millisecond, and one more than the maximum in the first of the next window. -/
def rush (s : Nat) (x : Identity) : List (Action Nat) :=
  burst s x 1 ++ List.replicate 60 (relayAt 999 s x) ++ List.replicate 61 (relayAt 1000 s x)

end Sample

/-- The last relay of either window is turned away; of those that pass, all but the first
come within a second. -/
theorem relays_per_identity_rush :
    (Sample.rush 1 Sample.first).length = 123 ∧
      (history (Sample.rush 1 Sample.first)).length = 120 ∧
      (history (Sample.rush 1 Sample.first)).countP (fun r => r.identity = Sample.first ∧
        999 ≤ r.time ∧ r.time < 999 + 1000) = 119 ∧
      (history (Sample.rush 1 Sample.first)).countP (fun r => r.identity = Sample.first ∧
        999 ≤ r.time ∧ r.time < 999 + 1000) ≤ 2 * maxRelayPerWindow :=
  ⟨by decide, by decide +kernel, by decide +kernel,
    (relays_per_identity (Sample.rush 1 Sample.first) (by decide +kernel) Sample.first).1 999⟩

/-! ## The bound for a socket -/

/-- The socket joins under the identity it joined under before, if it did. -/
def KeepsName (s : Ws) (w : World Ws) : Action Ws → Prop
  | .message s' env parsed => s' = s → s ∉ w.closed →
      ∀ x y, joinAccepted env s parsed w.room = some x → lastIdentity w.joins s = some y → x = y
  | .close .. => True

/-- The relays of a socket were all counted under the identity it joined under last. -/
structure OneName (s : Ws) (p : World Ws × List (Relay Ws)) : Prop where
  speaks : Speaks p.1
  same : ∀ r ∈ p.2, r.socket = s → lastIdentity p.1.joins s = some r.identity

/-- A relay that passes is counted under the identity its socket holds, and joins nothing. -/
theorem admitted_eq_some {w : World Ws} {a : Action Ws} {r : Relay Ws}
    (h : admitted w a = some r) : ∃ env parsed, a = .message r.socket env parsed ∧
      r.socket ∉ w.closed ∧ countedAs r.socket parsed w.room = some r.identity := by
  cases a with
  | close s env => exact absurd h (by simp [admitted])
  | message s env parsed =>
      by_cases hs : s ∈ w.closed
      · rw [admitted, if_pos hs] at h
        exact absurd h (by simp)
      · rw [admitted, if_neg hs] at h
        cases hcount : countedAs s parsed w.room with
        | none =>
            rw [(onMessage_not_counted env hcount).2] at h
            exact absurd h (by simp)
        | some x =>
            rw [(onMessage_counted env hcount).2] at h
            dsimp only at h
            split at h
            · rw [← Option.some.inj h]
              exact ⟨env, parsed, rfl, hs, hcount⟩
            · exact absurd h (by simp)

theorem joins_step_counted {w : World Ws} {s : Ws} {env : Env Ws} {parsed : Option Value}
    {x : Identity} (h : countedAs s parsed w.room = some x) :
    (step w (.message s env parsed)).joins = w.joins := by
  obtain ⟨msg, rfl, htype, -, -⟩ := countedAs_eq_some h
  have hnone : joinAccepted env s (some msg) w.room = none := by
    cases hj : joinAccepted env s (some msg) w.room with
    | none => rfl
    | some y =>
        rw [joinAccepted_type hj] at htype
        exact absurd htype (by simp)
  simp only [step]
  split
  · rfl
  · simp [hnone]

/-- An event does not change the identity a socket joined under last, as long as it keeps
its name. -/
theorem lastIdentity_step {s : Ws} {w : World Ws} {a : Action Ws} {x : Identity}
    (hname : KeepsName s w a) (h : lastIdentity w.joins s = some x) :
    lastIdentity (step w a).joins s = some x := by
  cases a with
  | close s' env =>
      simp only [step]
      split <;> exact h
  | message s' env parsed =>
      simp only [step]
      split
      · exact h
      · next hs =>
          cases hj : joinAccepted env s' parsed w.room with
          | none => simpa using h
          | some y =>
              simp only [Option.map_some, Option.toList_some]
              rw [lastIdentity_concat]
              split
              · next hs' =>
                  subst hs'
                  rw [hname rfl hs y x hj h]
              · exact h

theorem OneName.auditStep {s : Ws} {p : World Ws × List (Relay Ws)} {a : Action Ws}
    (h : OneName s p) (hname : KeepsName s p.1 a) : OneName s (Signal.auditStep p a) := by
  refine ⟨speaks_step p.1 a h.speaks, ?_⟩
  intro r hr hrs
  rcases List.mem_append.1 hr with hr | hr
  · exact lastIdentity_step hname (h.same r hr hrs)
  · rw [Option.mem_toList] at hr
    obtain ⟨env, parsed, rfl, hopen, hcount⟩ := admitted_eq_some hr
    obtain ⟨msg, -, -, hholds, -⟩ := countedAs_eq_some hcount
    rw [← hrs, Signal.auditStep, joins_step_counted hcount]
    exact h.speaks.identity r.socket r.identity hopen hholds

theorem stepsMeet_auditStep {Ok : World Ws → Action Ws → Prop} {p : World Ws × List (Relay Ws)}
    {as : List (Action Ws)} (h : Runs.StepsMeet step Ok p.1 as) :
    Runs.StepsMeet auditStep (fun p => Ok p.1) p as := by
  induction as generalizing p with
  | nil => trivial
  | cons a as ih => exact ⟨h.1, ih h.2⟩

theorem oneName_history {s : Ws} {as : List (Action Ws)}
    (hname : Runs.StepsMeet step (KeepsName s) World.start as) :
    OneName s (Runs.run auditStep (World.start, []) as) := by
  have hstep : ∀ p a, OneName s p → KeepsName s p.1 a → OneName s (auditStep p a) :=
    fun p a h hok => h.auditStep hok
  apply Runs.run_invariant auditStep hstep
  · exact ⟨speaks_start, nofun⟩
  · exact stepsMeet_auditStep hname

/-- **The rate limit of a socket.**  Of the relays of a socket that joins under one
identity only, twice the maximum pass in any second at most. -/
theorem relays_per_socket (as : List (Action Ws)) (hclock : NonDecreasing as) (s : Ws)
    (hname : Runs.StepsMeet step (KeepsName s) World.start as) (t : Int) :
    (history as).countP (fun r => r.socket = s ∧ t ≤ r.time ∧ r.time < t + 1000) ≤
      2 * maxRelayPerWindow := by
  have hone := oneName_history hname
  by_cases hex : ∃ r ∈ history as, r.socket = s
  · obtain ⟨r, hr, hrs⟩ := hex
    have hr' := hone.same r hr hrs
    have hle : (history as).countP (fun r => r.socket = s ∧ t ≤ r.time ∧ r.time < t + 1000) ≤
        (history as).countP (fun q => q.identity = r.identity ∧ t ≤ q.time ∧ q.time < t + 1000) := by
      apply List.countP_mono_left
      intro q hq hqs
      simp only [decide_eq_true_eq] at hqs ⊢
      have hq' := hone.same q hq hqs.1
      rw [hr'] at hq'
      exact ⟨(Option.some.inj hq').symm, hqs.2⟩
    exact hle.trans (relays_interval_le hclock r.identity t)
  · have hzero :
        (history as).countP (fun r => r.socket = s ∧ t ≤ r.time ∧ r.time < t + 1000) = 0 := by
      apply List.countP_eq_zero.2
      intro r hr hrs
      simp only [decide_eq_true_eq] at hrs
      exact hex ⟨r, hr, hrs.1⟩
    rw [hzero]
    exact Nat.zero_le _

theorem Sample.keepsName_relayAt (t : Int) (s : Nat) (x : Identity) (w : World Nat) :
    KeepsName s w (Sample.relayAt t s x) := by
  intro _ _ x y hx
  simp [joinAccepted, List.lookup_cons] at hx

/-- So it is for the socket that all of them came from. -/
theorem relays_per_socket_rush :
    (history (Sample.rush 1 Sample.first)).countP (fun r => r.socket = 1 ∧
        999 ≤ r.time ∧ r.time < 999 + 1000) = 119 ∧
      (history (Sample.rush 1 Sample.first)).countP (fun r => r.socket = 1 ∧
        999 ≤ r.time ∧ r.time < 999 + 1000) ≤ 2 * maxRelayPerWindow := by
  refine ⟨by decide +kernel, relays_per_socket (Sample.rush 1 Sample.first) (by decide +kernel) 1
    ⟨?_, ?_⟩ 999⟩
  · intro _ _ x y _ hy
    simp [lastIdentity, World.start] at hy
  · apply Runs.stepsMeet_of_mem
    intro a ha w
    -- all that comes after the first message are relays
    have hrelay : ∃ t, a = Sample.relayAt t 1 Sample.first := by
      change a ∈ List.replicate 1 _ ++ List.replicate 60 _ ++ List.replicate 61 _ at ha
      simp only [List.mem_append, List.mem_replicate] at ha
      rcases ha with (⟨-, rfl⟩ | ⟨-, rfl⟩) | ⟨-, rfl⟩
      exacts [⟨0, rfl⟩, ⟨999, rfl⟩, ⟨1000, rfl⟩]
    obtain ⟨t, rfl⟩ := hrelay
    exact Sample.keepsName_relayAt t 1 Sample.first w

/-- A socket that joins under three identities. -/
def renamingBurst : List (Action Nat) :=
  Sample.burst 1 Sample.first 60 ++ Sample.burst 1 Sample.second 60 ++ Sample.burst 1 Sample.third 1

/-- Of its relays more than twice the maximum pass in one millisecond. -/
theorem renaming_passes :
    NonDecreasing renamingBurst ∧
      2 * maxRelayPerWindow < (history renamingBurst).countP (fun r => r.socket = 1 ∧
        0 ≤ r.time ∧ r.time < 0 + 1000) := by
  constructor
  · decide +kernel
  · decide +kernel

end Signal
end FolkAround
