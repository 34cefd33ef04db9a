import FolkAround.Lib.OrdMap
import FolkAround.Lib.Runs
import FolkAround.Json

/-!
# The signalling room

The durable object of the signalling server: one room, the sockets connected to
it, and the three maps it keeps about them.  A socket that joins under an
identity is entered into `peers` and `sockets`; offers, answers and relays are
passed on to the socket the addressee joined with.

* `SignalRoom` — the state; identities are a subtype, so a key that is no
  identity cannot be stored.
* `Turn` — one event being handled: the room so far, what was sent, and whether
  an exception is on its way up.  An operation after a throw does nothing.
* `handleMessage`, `onMessage`, `onClose` — the two listeners of a socket.
* `World`, `Action`, `step` — a run of the room: any socket may send any text or
  close, the clock may show anything, and a send may throw.

`onMessage_maps` says once what a message can do to the two registration maps:
either it is an accepted join and `registered` is the result, or nothing changes.
-/

namespace FolkAround
namespace Signal

/-! ## Identities -/

/-- `/^[0-9a-f]{64}$/i` -/
def identityPattern (s : String) : Bool :=
  s.toList.length == 64 && s.toList.all fun c =>
    c.isDigit || ('a' ≤ c && c ≤ 'f') || ('A' ≤ c && c ≤ 'F')

/-- A string that passes `isIdentity`.  It is never empty, so that the tests for
truth on an identity are tests for `undefined`. -/
abbrev Identity := { s : String // identityPattern s = true }

/-- `isIdentity`, with the string it narrows its argument to. -/
def isIdentity (value : Option Value) : Option Identity :=
  match value with
  | some (.string s) => if h : identityPattern s = true then some ⟨s, h⟩ else none
  | _ => none

theorem isIdentity_eq_some {value : Option Value} {i : Identity} (h : isIdentity value = some i) :
    value = some (.string i.val) := by
  unfold isIdentity at h
  split at h
  · split at h
    · rw [← Option.some.inj h]
    · exact absurd h (by simp)
  · exact absurd h (by simp)

/-! ## The state of a room -/

def maxMessageBytes : Nat := 256 * 1024
def identityGracePeriodMs : Int := 5000
def relayRateLimitWindowMs : Int := 1000
def maxRelayPerWindow : Nat := 60

structure PeerEntry (Ws : Type) where
  ws : Ws
  joinedAt : Int

structure RateEntry where
  count : Nat
  resetAt : Int

/-- A key of the rate-limit map: an identity, or a socket behind a type cast. -/
inductive RateKey (Ws : Type) where
  | identity (i : Identity)
  | socket (s : Ws)
  deriving DecidableEq

structure SignalRoom (Ws : Type) where
  peers : OrdMap Identity (PeerEntry Ws)
  sockets : OrdMap Ws Identity
  rateLimit : OrdMap (RateKey Ws) RateEntry

/-- A room nobody has joined. -/
def SignalRoom.new {Ws : Type} : SignalRoom Ws := ⟨.empty, .empty, .empty⟩

/-- What the server sends to a client. -/
inductive Outbound where
  | error (message : String)
  | joined (room : String) (peers : List Identity)
  | peerJoined (identity : Identity)
  | peerLeft (identity : Identity)
  /-- A forwarded offer, answer or relay. -/
  | envelope (type : String) (sender : Identity) (data : Option Value)

/-- What handling an event does to a socket. -/
inductive Output (Ws : Type) where
  | send (socket : Ws) (message : Outbound)
  | close (socket : Ws) (code : Nat) (reason : String)

/-! ## The runtime -/

/-- The parts of the JavaScript runtime that are not modelled: how it prints a
number, and the text a template literal makes of a value (`none` if that throws). -/
structure Js where
  numberText : Number → List Char
  template : Option Value → Option String

/-- What the runtime shows while one event is handled: on which sockets a send
throws, and the two readings of the clock an event can take. -/
structure Env (Ws : Type) where
  js : Js
  sendFails : Ws → Bool
  now : Int
  later : Int

/-- The length of the text of a value in bytes; `undefined` has no text. -/
def messageSize (js : Js) (value : Option Value) : Nat :=
  match value with
  | none => 0
  | some v => (Utf8.encode (v.stringify js.numberText)).length

variable {Ws : Type} [DecidableEq Ws]

/-- An event being handled. -/
structure Turn (Ws : Type) where
  room : SignalRoom Ws
  out : List (Output Ws)
  /-- An exception is on its way to the listener. -/
  thrown : Bool

namespace Turn

/-- The start of an event. -/
def start (room : SignalRoom Ws) : Turn Ws := ⟨room, [], false⟩

def throw (t : Turn Ws) : Turn Ws := { t with thrown := true }

def modify (t : Turn Ws) (f : SignalRoom Ws → SignalRoom Ws) : Turn Ws :=
  if t.thrown then t else { t with room := f t.room }

def send (env : Env Ws) (t : Turn Ws) (socket : Ws) (message : Outbound) : Turn Ws :=
  if t.thrown then t
  else if env.sendFails socket then t.throw
  else { t with out := t.out ++ [.send socket message] }

def close (t : Turn Ws) (socket : Ws) (code : Nat) (reason : String) : Turn Ws :=
  if t.thrown then t else { t with out := t.out ++ [.close socket code reason] }

/-- Send to every entry of `peers` but those of the excluded socket. -/
def broadcast (env : Env Ws) (t : Turn Ws) (message : Outbound) (exclude : Option Ws) : Turn Ws :=
  t.room.peers.entries.foldl
    (fun t p => if some p.2.ws = exclude then t else t.send env p.2.ws message) t

end Turn

/-! ## The listeners -/

/-- The end of the `join` branch: enter the socket into both maps, answer with the
other peers and tell them. -/
def acceptJoin (env : Env Ws) (server : Ws) (identity : Identity) (joinedAt : Int)
    (t : Turn Ws) : Turn Ws :=
  let t := t.modify fun room => { room with peers := room.peers.set identity ⟨server, joinedAt⟩ }
  let t := t.modify fun room => { room with sockets := room.sockets.set server identity }
  let peerList := t.room.peers.keys.filter fun id => id ≠ identity
  let t := t.send env server (.joined "" peerList)
  t.broadcast env (.peerJoined identity) (some server)

/-- The `join` branch. -/
def handleJoin (env : Env Ws) (server : Ws) (msg : Value) (t : Turn Ws) : Turn Ws :=
  match isIdentity (msg.get "identity") with
  | none => t.send env server (.error "Invalid identity")
  | some identity =>
    match t.room.peers.get identity with
    | none => acceptJoin env server identity env.now t
    | some existingEntry =>
      if existingEntry.ws = server then acceptJoin env server identity env.now t
      -- a recent connection is kept and the new one turned away
      else if env.now - existingEntry.joinedAt < identityGracePeriodMs then
        (t.send env server (.error "Identity recently joined, try later")).close
          server 1008 "Identity recently joined"
      else
        let t := t.close existingEntry.ws 1000 "Replaced by newer connection"
        let t := t.modify fun room =>
          { room with sockets := room.sockets.delete existingEntry.ws }
        acceptJoin env server identity env.later t

/-- Did the socket join, and under the identity it names? -/
def isSender (env : Env Ws) (server : Ws) (identity : Option Value) (t : Turn Ws) :
    Bool × Turn Ws :=
  match t.room.sockets.get server with
  | none => (false, t.send env server (.error "Join required"))
  | some joinedIdentity =>
    if identity.bind Value.asStr = some joinedIdentity.val then (true, t)
    else (false, t.send env server (.error "Sender identity mismatch"))

/-- Under what the relays of a socket are counted. -/
def rateKey (server : Ws) (room : SignalRoom Ws) : RateKey Ws :=
  match room.sockets.get server with
  | some identity => .identity identity
  | none => .socket server

/-- The entry with one more relay, in a new window if there is none or it is over. -/
def countRelay (now : Int) (entry : Option RateEntry) : RateEntry :=
  match entry with
  | some entry =>
    if now ≥ entry.resetAt then ⟨1, now + relayRateLimitWindowMs⟩
    else { entry with count := entry.count + 1 }
  | none => ⟨1, now + relayRateLimitWindowMs⟩

/-- Count a relay and turn it away if the window is full. -/
def checkRateLimit (env : Env Ws) (server : Ws) (t : Turn Ws) : Bool × Turn Ws :=
  let key := rateKey server t.room
  let entry := countRelay env.now (t.room.rateLimit.get key)
  let t := t.modify fun room => { room with rateLimit := room.rateLimit.set key entry }
  if entry.count > maxRelayPerWindow then
    (false, t.send env server (.error "Rate limit exceeded"))
  else (true, t)

/-- The common end of the `offer`, `answer` and `relay` branches: check the two
identities and the size, and pass the data on to the addressee. -/
def forward (env : Env Ws) (server : Ws) (type : String) (msg : Value) (t : Turn Ws) : Turn Ws :=
  match isIdentity (msg.get "from"), isIdentity (msg.get "to") with
  | some sender, some target =>
    if messageSize env.js (msg.get "data") > maxMessageBytes then
      t.send env server (.error "Message too large")
    else
      match t.room.peers.get target with
      | some targetEntry => t.send env targetEntry.ws (.envelope type sender (msg.get "data"))
      | none => t
  | _, _ => t.send env server (.error "Invalid peer identity")

/-- The `offer` and `answer` branches. -/
def handleHandshake (env : Env Ws) (server : Ws) (type : String) (msg : Value) (t : Turn Ws) :
    Turn Ws :=
  match isSender env server (msg.get "from") t with
  | (false, t) => t
  | (true, t) => forward env server type msg t

/-- The `relay` branch. -/
def handleRelay (env : Env Ws) (server : Ws) (msg : Value) (t : Turn Ws) : Turn Ws :=
  match isSender env server (msg.get "from") t with
  | (false, t) => t
  | (true, t) =>
    match checkRateLimit env server t with
    | (false, t) => t
    | (true, t) => forward env server "relay" msg t

/-- A message that was parsed.  Reading a property of `null` throws. -/
def handleMessage (env : Env Ws) (server : Ws) (msg : Value) (t : Turn Ws) : Turn Ws :=
  if msg.isNull then t.throw
  else
    let type := (msg.get "type").bind Value.asStr
    if type = some "join" then handleJoin env server msg t
    else if type = some "offer" then handleHandshake env server "offer" msg t
    else if type = some "answer" then handleHandshake env server "answer" msg t
    else if type = some "relay" then handleRelay env server msg t
    else
      match env.js.template (msg.get "type") with
      | some text => t.send env server (.error ("Unknown type: " ++ text))
      | none => t.throw

/-- The `catch` of the message listener: the sender is told, and this send may
throw in its turn. -/
def Turn.recover (env : Env Ws) (server : Ws) (t : Turn Ws) : Turn Ws :=
  if t.thrown then { t with thrown := false }.send env server (.error "Invalid message") else t

/-- The `message` listener; `parsed` is `none` on a text that is no JSON. -/
def onMessage (env : Env Ws) (server : Ws) (parsed : Option Value) (room : SignalRoom Ws) :
    Turn Ws :=
  match parsed with
  | none => (Turn.start room).throw.recover env server
  | some msg => (handleMessage env server msg (Turn.start room)).recover env server

/-- The first half of the `close` listener: the socket's entry leaves `peers` and
the others are told. -/
def leave (env : Env Ws) (server : Ws) (room : SignalRoom Ws) : Turn Ws :=
  match room.sockets.get server with
  | none => .start room
  | some identity =>
    match room.peers.get identity with
    | none => .start room
    | some entry =>
      if entry.ws = server then
        ((Turn.start room).modify fun room =>
          { room with peers := room.peers.delete identity }).broadcast
            env (.peerLeft identity) (some server)
      else .start room

/-- The `close` listener.  A throw in its first half skips the clean-up. -/
def onClose (env : Env Ws) (server : Ws) (room : SignalRoom Ws) : Turn Ws :=
  let t := leave env server room
  let t := t.modify fun room => { room with sockets := room.sockets.delete server }
  t.modify fun room => { room with rateLimit := room.rateLimit.delete (.socket server) }

/-! ## Accepted joins -/

/-- The identity under which a message joins its socket to the room, if it does:
it is a `join` for an identity that is free, held by the same socket already, or
held by another one for longer than the grace period. -/
def joinAccepted (env : Env Ws) (server : Ws) (parsed : Option Value) (room : SignalRoom Ws) :
    Option Identity := do
  let msg ← parsed
  let type ← (msg.get "type").bind Value.asStr
  if type = "join" then
    let identity ← isIdentity (msg.get "identity")
    match room.peers.get identity with
    | none => some identity
    | some entry =>
      if entry.ws = server ∨ identityGracePeriodMs ≤ env.now - entry.joinedAt then some identity
      else none
  else none

/-- The socket that loses its identity when another one joins under it. -/
def replaced (server : Ws) (identity : Identity) (room : SignalRoom Ws) : Option Ws :=
  match room.peers.get identity with
  | none => none
  | some entry => if entry.ws = server then none else some entry.ws

/-- The room after an accepted join. -/
def registered (server : Ws) (identity : Identity) (joinedAt : Int) (room : SignalRoom Ws) :
    SignalRoom Ws where
  peers := room.peers.set identity ⟨server, joinedAt⟩
  sockets :=
    match replaced server identity room with
    | none => room.sockets.set server identity
    | some old => (room.sockets.delete old).set server identity
  rateLimit := room.rateLimit

/-! ## Runs -/

/-- A room with what happened in it: the sockets whose `close` event was handled,
the accepted joins and all that was sent, each in order. -/
structure World (Ws : Type) where
  room : SignalRoom Ws
  closed : List Ws
  joins : List (Ws × Identity)
  outbox : List (Output Ws)

/-- The start of every run. -/
def World.start : World Ws := ⟨.new, [], [], []⟩

/-- An event of a socket. -/
inductive Action (Ws : Type) where
  | message (socket : Ws) (env : Env Ws) (parsed : Option Value)
  | close (socket : Ws) (env : Env Ws)

/-- One event.  The `close` event is the last one of a socket. -/
def step (w : World Ws) : Action Ws → World Ws
  | .message s env parsed =>
    if s ∈ w.closed then w
    else
      let t := onMessage env s parsed w.room
      { room := t.room
        closed := w.closed
        joins := w.joins ++ ((joinAccepted env s parsed w.room).map fun x => (s, x)).toList
        outbox := w.outbox ++ t.out }
  | .close s env =>
    if s ∈ w.closed then w
    else
      let t := onClose env s w.room
      { w with room := t.room, closed := s :: w.closed, outbox := w.outbox ++ t.out }

/-! ## A room to look at -/

namespace Sample

/-- A runtime in which nothing fails and no time passes. -/
def env : Env Nat := ⟨⟨fun _ => [], fun _ => none⟩, fun _ => false, 0, 0⟩

def first : Identity := ⟨String.ofList (List.replicate 64 'a'), by decide +kernel⟩

def second : Identity := ⟨String.ofList (List.replicate 64 'b'), by decide +kernel⟩

/-- A socket asks to join under an identity. -/
def join (s : Nat) (x : Identity) : Action Nat :=
  .message s env (some (.object [("type", .string "join"), ("identity", .string x.val)]))

end Sample

/-! ## What the operations of a turn leave alone -/

namespace Turn

section

omit [DecidableEq Ws]

@[simp] theorem start_room (room : SignalRoom Ws) : (start room).room = room := rfl

@[simp] theorem start_out (room : SignalRoom Ws) : (start room).out = [] := rfl

@[simp] theorem start_thrown (room : SignalRoom Ws) : (start room).thrown = false := rfl

@[simp] theorem throw_room (t : Turn Ws) : t.throw.room = t.room := rfl

@[simp] theorem throw_out (t : Turn Ws) : t.throw.out = t.out := rfl

@[simp] theorem modify_out (t : Turn Ws) (f : SignalRoom Ws → SignalRoom Ws) :
    (t.modify f).out = t.out := by
  unfold modify; split <;> rfl

@[simp] theorem modify_thrown (t : Turn Ws) (f : SignalRoom Ws → SignalRoom Ws) :
    (t.modify f).thrown = t.thrown := by
  unfold modify; split <;> rfl

theorem modify_room {t : Turn Ws} (h : t.thrown = false) (f : SignalRoom Ws → SignalRoom Ws) :
    (t.modify f).room = f t.room := by
  simp [modify, h]

@[simp] theorem send_room (env : Env Ws) (t : Turn Ws) (s : Ws) (m : Outbound) :
    (t.send env s m).room = t.room := by
  unfold send; split
  · rfl
  · split <;> rfl

@[simp] theorem close_room (t : Turn Ws) (s : Ws) (code : Nat) (reason : String) :
    (t.close s code reason).room = t.room := by
  unfold close; split <;> rfl

@[simp] theorem close_thrown (t : Turn Ws) (s : Ws) (code : Nat) (reason : String) :
    (t.close s code reason).thrown = t.thrown := by
  unfold close; split <;> rfl

theorem send_thrown (env : Env Ws) (t : Turn Ws) (s : Ws) (m : Outbound) :
    (t.send env s m).thrown = (t.thrown || env.sendFails s) := by
  unfold send
  split
  · next h => simp [h]
  · next h =>
      split
      · next h' => simp [throw, h']
      · next h' => simp [h, h']

@[simp] theorem recover_room (env : Env Ws) (s : Ws) (t : Turn Ws) :
    (t.recover env s).room = t.room := by
  unfold recover
  split
  · rw [send_room]
  · rfl

end

@[simp] theorem broadcast_room (env : Env Ws) (t : Turn Ws) (m : Outbound) (x : Option Ws) :
    (t.broadcast env m x).room = t.room := by
  unfold broadcast
  generalize t.room.peers.entries = l
  induction l generalizing t with
  | nil => rfl
  | cons p l ih =>
      rw [List.foldl_cons, ih]
      split
      · rfl
      · exact send_room ..

end Turn

@[simp] theorem isSender_room (env : Env Ws) (s : Ws) (identity : Option Value) (t : Turn Ws) :
    (isSender env s identity t).2.room = t.room := by
  unfold isSender
  split
  · exact Turn.send_room ..
  · split
    · rfl
    · exact Turn.send_room ..

omit [DecidableEq Ws] in
@[simp] theorem forward_room (env : Env Ws) (s : Ws) (type : String) (msg : Value) (t : Turn Ws) :
    (forward env s type msg t).room = t.room := by
  unfold forward
  split
  · split
    · exact Turn.send_room ..
    · split
      · exact Turn.send_room ..
      · rfl
  · exact Turn.send_room ..

@[simp] theorem handleHandshake_room (env : Env Ws) (s : Ws) (type : String) (msg : Value)
    (t : Turn Ws) : (handleHandshake env s type msg t).room = t.room := by
  have hs := isSender_room env s (msg.get "from") t
  unfold handleHandshake
  split
  · next h => rw [h] at hs; exact hs
  · next h => rw [h] at hs; rw [forward_room]; exact hs

/-- Counting a relay touches the rate limits only. -/
theorem checkRateLimit_maps (env : Env Ws) (s : Ws) (t : Turn Ws) :
    (checkRateLimit env s t).2.room.peers = t.room.peers ∧
      (checkRateLimit env s t).2.room.sockets = t.room.sockets := by
  have hm (f : SignalRoom Ws → SignalRoom Ws)
      (hf : (f t.room).peers = t.room.peers ∧ (f t.room).sockets = t.room.sockets) :
      (t.modify f).room.peers = t.room.peers ∧ (t.modify f).room.sockets = t.room.sockets := by
    unfold Turn.modify
    split
    · exact ⟨rfl, rfl⟩
    · exact hf
  simp only [checkRateLimit]
  split
  · rw [Turn.send_room]
    exact hm _ ⟨rfl, rfl⟩
  · exact hm _ ⟨rfl, rfl⟩

theorem handleRelay_maps (env : Env Ws) (s : Ws) (msg : Value) (t : Turn Ws) :
    (handleRelay env s msg t).room.peers = t.room.peers ∧
      (handleRelay env s msg t).room.sockets = t.room.sockets := by
  have hs := isSender_room env s (msg.get "from") t
  unfold handleRelay
  split
  · next h => rw [h] at hs; rw [← hs]; exact ⟨rfl, rfl⟩
  · next u h =>
      rw [h] at hs
      have hc := checkRateLimit_maps env s u
      rw [← hs]
      split
      · next h' => rw [h'] at hc; exact hc
      · next h' => rw [h'] at hc; rw [forward_room]; exact hc

/-! ## What a message does to the registrations -/

theorem acceptJoin_room {env : Env Ws} {s : Ws} {x : Identity} {j : Int} {t : Turn Ws}
    (h : t.thrown = false) :
    (acceptJoin env s x j t).room =
      { t.room with peers := t.room.peers.set x ⟨s, j⟩, sockets := t.room.sockets.set s x } := by
  simp [acceptJoin, Turn.modify, h]

/-- The turn in which a join is accepted: the socket it replaces was closed and
dropped before. -/
def beforeJoin (s : Ws) (x : Identity) (room : SignalRoom Ws) : Turn Ws :=
  match replaced s x room with
  | none => .start room
  | some old =>
    ((Turn.start room).close old 1000 "Replaced by newer connection").modify fun room =>
      { room with sockets := room.sockets.delete old }

theorem beforeJoin_thrown (s : Ws) (x : Identity) (room : SignalRoom Ws) :
    (beforeJoin s x room).thrown = false := by
  unfold beforeJoin
  split
  · rfl
  · rw [Turn.modify_thrown, Turn.close_thrown, Turn.start_thrown]

theorem acceptJoin_beforeJoin_room (env : Env Ws) (s : Ws) (x : Identity) (j : Int)
    (room : SignalRoom Ws) :
    (acceptJoin env s x j (beforeJoin s x room)).room = registered s x j room := by
  rw [acceptJoin_room (beforeJoin_thrown s x room), registered, beforeJoin]
  cases replaced s x room with
  | none => rfl
  | some old =>
      simp only
      rw [Turn.modify_room (by rw [Turn.close_thrown, Turn.start_thrown]), Turn.close_room,
        Turn.start_room]

theorem joinAccepted_type {env : Env Ws} {s : Ws} {msg : Value} {room : SignalRoom Ws}
    {x : Identity} (h : joinAccepted env s (some msg) room = some x) :
    (msg.get "type").bind Value.asStr = some "join" := by
  simp only [joinAccepted, Option.bind_eq_bind, Option.bind_some] at h
  obtain ⟨type, htype, h⟩ := Option.bind_eq_some_iff.1 h
  by_cases hc : type = "join"
  · rw [htype, hc]
  · rw [if_neg hc] at h
    exact absurd h (by simp)

/-- A `join` that is accepted. -/
theorem handleJoin_accepted {env : Env Ws} {s : Ws} {msg : Value} {room : SignalRoom Ws}
    {x : Identity} (h : joinAccepted env s (some msg) room = some x) :
    ∃ j, handleJoin env s msg (.start room) = acceptJoin env s x j (beforeJoin s x room) := by
  have htype := joinAccepted_type h
  simp only [joinAccepted, htype, Option.bind_eq_bind, Option.bind_some, if_true] at h
  obtain ⟨y, hy, h⟩ := Option.bind_eq_some_iff.1 h
  simp only [handleJoin, hy, Turn.start_room]
  cases hp : room.peers.get y with
  | none =>
      rw [hp] at h
      obtain rfl : y = x := Option.some.inj h
      exact ⟨env.now, by simp [beforeJoin, replaced, hp]⟩
  | some entry =>
      simp only [hp, Option.ite_none_right_eq_some, Option.some.injEq] at h
      obtain ⟨hold, rfl⟩ := h
      by_cases hws : entry.ws = s
      · simp only [if_pos hws]
        exact ⟨env.now, by simp [beforeJoin, replaced, hp, hws]⟩
      · have hgrace : ¬ env.now - entry.joinedAt < identityGracePeriodMs :=
          Int.not_lt.2 (hold.resolve_left hws)
        simp only [if_neg hws, if_neg hgrace]
        exact ⟨env.later, by simp [beforeJoin, replaced, hp, hws]⟩

/-- A `join` that is turned away. -/
theorem handleJoin_rejected {env : Env Ws} {s : Ws} {msg : Value} {room : SignalRoom Ws}
    (htype : (msg.get "type").bind Value.asStr = some "join")
    (h : joinAccepted env s (some msg) room = none) :
    ∃ m, handleJoin env s msg (.start room) = (Turn.start room).send env s (.error m) ∨
      ∃ reason, handleJoin env s msg (.start room) =
        ((Turn.start room).send env s (.error m)).close s 1008 reason := by
  simp only [joinAccepted, htype, Option.bind_eq_bind, Option.bind_some, if_true] at h
  cases hx : isIdentity (msg.get "identity") with
  | none => exact ⟨"Invalid identity", .inl (by simp only [handleJoin, hx])⟩
  | some x =>
      rw [hx, Option.bind_some] at h
      cases hp : room.peers.get x with
      | none =>
          rw [hp] at h
          exact absurd h (by simp)
      | some entry =>
          simp only [hp, ite_eq_right_iff, reduceCtorEq, imp_false, not_or, Int.not_le] at h
          refine ⟨"Identity recently joined, try later", .inr ⟨"Identity recently joined", ?_⟩⟩
          simp only [handleJoin, hx, Turn.start_room, hp, if_neg h.1, if_pos h.2]

/-- What has a type is not null. -/
theorem isNull_of_type {msg : Value} {type : String}
    (htype : (msg.get "type").bind Value.asStr = some type) : msg.isNull = false := by
  cases msg with
  | null => exact absurd htype (by simp [Value.get])
  | _ => rfl

theorem handleMessage_join {env : Env Ws} {s : Ws} {msg : Value} {t : Turn Ws}
    (htype : (msg.get "type").bind Value.asStr = some "join") :
    handleMessage env s msg t = handleJoin env s msg t := by
  simp [handleMessage, isNull_of_type htype, htype]

/-- **What a message can do.**  Either it is an accepted join and its socket is
registered, or both registration maps stay as they are. -/
theorem onMessage_maps (env : Env Ws) (s : Ws) (parsed : Option Value) (room : SignalRoom Ws) :
    match joinAccepted env s parsed room with
    | none => (onMessage env s parsed room).room.peers = room.peers ∧
        (onMessage env s parsed room).room.sockets = room.sockets
    | some x => ∃ j, (onMessage env s parsed room).room = registered s x j room := by
  cases parsed with
  | none => simp [joinAccepted, onMessage]
  | some msg =>
      simp only [onMessage, Turn.recover_room]
      by_cases hj : (msg.get "type").bind Value.asStr = some "join"
      · rw [handleMessage_join hj]
        cases h : joinAccepted env s (some msg) room with
        | none =>
            obtain ⟨m, h | ⟨reason, h⟩⟩ := handleJoin_rejected hj h
            · rw [h, Turn.send_room]
              exact ⟨rfl, rfl⟩
            · rw [h, Turn.close_room, Turn.send_room]
              exact ⟨rfl, rfl⟩
        | some x =>
            obtain ⟨j, h⟩ := handleJoin_accepted h
            exact ⟨j, by rw [h, acceptJoin_beforeJoin_room]⟩
      · have hnone : joinAccepted env s (some msg) room = none := by
          cases h : joinAccepted env s (some msg) room with
          | none => rfl
          | some x => exact absurd (joinAccepted_type h) hj
        simp only [hnone, handleMessage, hj, if_false]
        split
        · exact ⟨rfl, rfl⟩
        · split
          · simp
          · split
            · simp
            · split
              · exact handleRelay_maps env s msg (Turn.start room)
              · split <;> simp

/-! ## What a close does to the registrations -/

/-- No send to a socket other than `s` would throw. -/
def OthersReachable (env : Env Ws) (s : Ws) (room : SignalRoom Ws) : Prop :=
  ∀ y e, room.peers.get y = some e → e.ws ≠ s → env.sendFails e.ws = false

/-- The socket still stands in `peers` under the identity it holds. -/
def Registered (s : Ws) (x : Identity) (room : SignalRoom Ws) : Prop :=
  room.sockets.get s = some x ∧ ∃ e, room.peers.get x = some e ∧ e.ws = s

theorem Turn.broadcast_thrown (env : Env Ws) (t : Turn Ws) (m : Outbound) (x : Option Ws) :
    (t.broadcast env m x).thrown =
      (t.thrown || t.room.peers.entries.any fun p =>
        decide (some p.2.ws ≠ x) && env.sendFails p.2.ws) := by
  unfold Turn.broadcast
  generalize t.room.peers.entries = l
  induction l generalizing t with
  | nil => simp
  | cons p l ih =>
      rw [List.foldl_cons, ih, List.any_cons]
      by_cases h : some p.2.ws = x
      · simp [h]
      · simp [h, Turn.send_thrown, Bool.or_assoc]

/-- The announcement of a close goes through if the others can be reached. -/
theorem broadcast_peerLeft_thrown (env : Env Ws) {s : Ws} {x : Identity} {room : SignalRoom Ws}
    (h : Registered s x room) (m : Outbound) :
    (((Turn.start room).modify fun room => { room with peers := room.peers.delete x }).broadcast
      env m (some s)).thrown = false ↔ OthersReachable env s room := by
  rw [Turn.broadcast_thrown, Turn.modify_thrown, Turn.start_thrown, Bool.false_or,
    Turn.modify_room (Turn.start_thrown room), List.any_eq_false]
  obtain ⟨e, he, hws⟩ := h.2
  constructor
  · intro hall y e' hy hne
    have hmem : (y, e') ∈ (room.peers.delete x).entries := by
      rw [OrdMap.mem_entries_iff, OrdMap.get_delete_of_ne, hy]
      rintro rfl
      rw [hy] at he
      exact hne (Option.some.inj he ▸ hws)
    simpa [hne] using hall _ hmem
  · rintro hall ⟨y, e'⟩ hmem
    rw [Turn.start_room, OrdMap.mem_entries_iff, OrdMap.get_delete] at hmem
    split at hmem
    · exact absurd hmem (by simp)
    · by_cases hne : e'.ws = s
      · simp [hne]
      · simp [hall y e' hmem hne]

theorem leave_of_registered (env : Env Ws) {s : Ws} {x : Identity} {room : SignalRoom Ws}
    (h : Registered s x room) :
    leave env s room =
      ((Turn.start room).modify fun room => { room with peers := room.peers.delete x }).broadcast
        env (.peerLeft x) (some s) := by
  obtain ⟨hs, e, he, hws⟩ := h
  simp only [leave, hs, he, hws, if_true]

theorem leave_of_not_registered (env : Env Ws) {s : Ws} {room : SignalRoom Ws}
    (h : ∀ x, ¬ Registered s x room) : leave env s room = .start room := by
  unfold leave
  split
  · rfl
  · next x hs =>
      split
      · rfl
      · next e he => exact if_neg fun hws => h x ⟨hs, e, he, hws⟩

theorem onClose_room {env : Env Ws} {s : Ws} {room : SignalRoom Ws}
    (h : (leave env s room).thrown = false) :
    (onClose env s room).room =
      { (leave env s room).room with
        sockets := (leave env s room).room.sockets.delete s
        rateLimit := (leave env s room).room.rateLimit.delete (.socket s) } := by
  rw [onClose, Turn.modify_room (by rw [Turn.modify_thrown, h]), Turn.modify_room h]

/-- **What a close can do.**  A registered socket leaves `peers`; then its key is
dropped, unless the announcement to the others throws. -/
theorem onClose_maps (env : Env Ws) (s : Ws) (room : SignalRoom Ws) :
    (∃ x, Registered s x room ∧ (onClose env s room).room.peers = room.peers.delete x ∧
      ((OthersReachable env s room ∧
          (onClose env s room).room.sockets = room.sockets.delete s) ∨
        (¬ OthersReachable env s room ∧ (onClose env s room).room.sockets = room.sockets))) ∨
    ((∀ x, ¬ Registered s x room) ∧ (onClose env s room).room.peers = room.peers ∧
      (onClose env s room).room.sockets = room.sockets.delete s) := by
  by_cases hreg : ∃ x, Registered s x room
  · obtain ⟨x, hx⟩ := hreg
    have hthrow := broadcast_peerLeft_thrown env hx (.peerLeft x)
    have hleave := leave_of_registered env hx
    have hroom : (leave env s room).room = { room with peers := room.peers.delete x } := by
      rw [hleave, Turn.broadcast_room, Turn.modify_room (Turn.start_thrown room), Turn.start_room]
    rw [← hleave] at hthrow
    refine .inl ⟨x, hx, ?_⟩
    by_cases hok : OthersReachable env s room
    · rw [onClose_room (hthrow.2 hok), hroom]
      exact ⟨rfl, .inl ⟨hok, rfl⟩⟩
    · have hthrown : (leave env s room).thrown = true := by
        rw [← Bool.not_eq_false]
        exact fun hc => hok (hthrow.1 hc)
      have hstop : onClose env s room = leave env s room := by
        simp [onClose, Turn.modify, hthrown]
      rw [hstop, hroom]
      exact ⟨rfl, .inr ⟨hok, rfl⟩⟩
  · have hnone : ∀ x, ¬ Registered s x room := not_exists.1 hreg
    have hleave := leave_of_not_registered env hnone
    rw [onClose_room (by rw [hleave]; rfl), hleave]
    exact .inr ⟨hnone, rfl, rfl⟩

/-! ## Looking up after an accepted join -/

theorem replaced_eq_some_iff {s u : Ws} {x : Identity} {room : SignalRoom Ws} :
    replaced s x room = some u ↔ ∃ e, room.peers.get x = some e ∧ e.ws = u ∧ u ≠ s := by
  unfold replaced
  cases room.peers.get x with
  | none => simp
  | some e =>
      by_cases h : e.ws = s
      · simp only [h, if_true, Option.some.injEq, exists_eq_left']
        exact ⟨fun hc => absurd hc (by simp), fun hc => absurd hc.1.symm hc.2⟩
      · simp only [h, if_false, Option.some.injEq, exists_eq_left']
        exact ⟨fun hc => ⟨hc, hc ▸ h⟩, And.left⟩

theorem get_peers_registered (s : Ws) (x y : Identity) (j : Int) (room : SignalRoom Ws) :
    (registered s x j room).peers.get y = if x = y then some ⟨s, j⟩ else room.peers.get y :=
  OrdMap.get_set ..

theorem get_sockets_registered (s u : Ws) (x : Identity) (j : Int) (room : SignalRoom Ws) :
    (registered s x j room).sockets.get u =
      if s = u then some x else if replaced s x room = some u then none
      else room.sockets.get u := by
  cases h : replaced s x room with
  | none => simp [registered, h, OrdMap.get_set]
  | some old => simp [registered, h, OrdMap.get_set, OrdMap.get_delete]

/-- What a socket holds after an accepted join: the new identity, or what it held
before if the join did not replace it. -/
theorem sockets_registered_cases {s u : Ws} {x y : Identity} {j : Int} {room : SignalRoom Ws}
    (h : (registered s x j room).sockets.get u = some y) :
    (u = s ∧ y = x) ∨ (u ≠ s ∧ room.sockets.get u = some y ∧ replaced s x room ≠ some u) := by
  rw [get_sockets_registered] at h
  by_cases hsu : s = u
  · rw [if_pos hsu, Option.some.injEq] at h
    exact .inl ⟨hsu.symm, h.symm⟩
  · rw [if_neg hsu] at h
    split at h
    · exact absurd h (by simp)
    · next hr => exact .inr ⟨Ne.symm hsu, h, hr⟩

/-- A registered socket that was not replaced stands under another identity. -/
theorem ne_of_not_replaced {s u : Ws} {x y : Identity} {room : SignalRoom Ws} (hus : u ≠ s)
    (hr : replaced s x room ≠ some u) (h : Registered u y room) : x ≠ y := by
  rintro rfl
  obtain ⟨-, e, he, hws⟩ := h
  exact hr (replaced_eq_some_iff.2 ⟨e, he, hws, hus⟩)

/-! ## Looking up after a close -/

theorem get_sockets_onClose {s u : Ws} (hus : u ≠ s) (env : Env Ws) (room : SignalRoom Ws) :
    (onClose env s room).room.sockets.get u = room.sockets.get u := by
  rcases onClose_maps env s room with ⟨x, -, -, ⟨-, hm⟩ | ⟨-, hm⟩⟩ | ⟨-, -, hm⟩
  · rw [hm, OrdMap.get_delete_of_ne (Ne.symm hus)]
  · rw [hm]
  · rw [hm, OrdMap.get_delete_of_ne (Ne.symm hus)]

/-- A close takes nobody else's entry out of `peers`. -/
theorem Registered.onClose {s u : Ws} {y : Identity} {room : SignalRoom Ws}
    (h : Registered u y room) (hus : u ≠ s) (env : Env Ws) :
    Registered u y (onClose env s room).room := by
  obtain ⟨hu, e, he, hws⟩ := h
  refine ⟨by rw [get_sockets_onClose hus, hu], e, ?_, hws⟩
  rcases onClose_maps env s room with ⟨x, ⟨-, e', he', hws'⟩, hm, -⟩ | ⟨-, hm, -⟩
  · rw [hm, OrdMap.get_delete, if_neg, he]
    rintro rfl
    rw [he] at he'
    exact hus (hws ▸ Option.some.inj he' ▸ hws')
  · rw [hm, he]

end Signal
end FolkAround
