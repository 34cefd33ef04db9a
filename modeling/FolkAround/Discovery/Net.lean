import Mathlib.Data.Fintype.Basic
import FolkAround.Signal.Delivery
import FolkAround.Transport.Isolation

/-!
# Daemons in a signalling room

The two halves of the program put together: the room of the signalling server, any
number of daemons that connect to it, lose their connections and connect again, and
anybody else who talks to the room.  Between a socket and the room there is one queue
each way; nothing is lost on it but with the connection.

* `toValue` — the JSON object the server writes for a message.
* `Daemon`, `Net`, `Action`, `step` — the system.  Every connection of a daemon has its
  own socket, named by the daemon and a number.
* `Faithful` — what is assumed of a step: a text is read as the value it was written
  for, and a send to a connected daemon does not throw.
* `Orderly`, `orderly_run` — what the queues and the maps of the room hold of
  connections, in every run.
* `signal_sent` — all a daemon does on a message: its sessions stay, and
  it sends offers, answers and relays in its own name.
-/

namespace FolkAround
namespace Discovery

open Signal (SignalRoom Identity Outbound Output Env Registered onMessage onClose joinAccepted)
open Transport (Crates P2PManager Key Nonce Session TransportError Grows handleSignalMessage
  establishSession parseIdentity sessionKey offerMessage answerMessage relayMessage)

/-! ## Messages -/

/-- What the server writes for a message. -/
def toValue : Outbound → Value
  | .error message => .object [("type", .string "error"), ("message", .string message)]
  | .joined room peers => .object [("type", .string "joined"), ("room", .string room),
      ("peers", .array (peers.map fun x => .string x.val))]
  | .peerJoined x => .object [("type", .string "peer_joined"), ("identity", .string x.val)]
  | .peerLeft x => .object [("type", .string "peer_left"), ("identity", .string x.val)]
  | .envelope type sender data => .object ([("type", .string type), ("from", .string sender.val)] ++
      -- `JSON.stringify` leaves out what is undefined
      (data.map fun v => ("data", v)).toList)

variable {c : Crates} {ι σ : Type}

/-- The first message of a connection. -/
def joinMessage (m : P2PManager c) : Value :=
  .object [("type", .string "join"), ("identity", .string m.identity)]

/-- What waits on the way from the room to a socket. -/
inductive Down where
  | message (m : Outbound)
  | close

/-! ## The system -/

/-- The socket of a connection of a daemon, or of anybody else. -/
inductive Socket (ι σ : Type) where
  | daemon (i : ι) (n : Nat)
  | stranger (q : σ)
  deriving DecidableEq

/-- A daemon with its latest connection, which it may have lost. -/
structure Daemon (c : Crates) where
  manager : P2PManager c
  connection : Nat
  connected : Bool

structure Net (c : Crates) (ι σ : Type) where
  room : SignalRoom (Socket ι σ)
  /-- The sockets whose `close` event was handled. -/
  closed : List (Socket ι σ)
  daemon : ι → Daemon c
  down : Socket ι σ → List Down
  up : Socket ι σ → List Value

namespace Net

/-- The start: nobody has connected, and every daemon has drawn its secret. -/
def start (c : Crates) (σ : Type) (secret : ι → Key) : Net c ι σ :=
  ⟨.new, [], fun i => ⟨.new c (secret i), 0, false⟩, fun _ => [], fun _ => []⟩

/-- The socket of the latest connection of a daemon. -/
def socket (w : Net c ι σ) (i : ι) : Socket ι σ := .daemon i (w.daemon i).connection

/-- Was there a connection with this socket yet? -/
def opened (w : Net c ι σ) : Socket ι σ → Bool
  | .daemon i n => decide (n ≤ (w.daemon i).connection)
  | .stranger _ => true

end Net

/-- What can happen. -/
inductive Action (ι σ : Type) where
  /-- A daemon connects and sends its `join`. -/
  | connect (i : ι)
  /-- A daemon loses its connection. -/
  | lose (i : ι)
  /-- A daemon reads what waits first, as a text; a request in it is answered. -/
  | receive (i : ι) (raw : String) (reply : Value → Except TransportError (Option String))
      (nonce : Nonce)
  /-- The room handles the message that waits first on a socket. -/
  | serve (i : ι) (n : Nat) (env : Env (Socket ι σ))
  /-- The room handles a message of somebody else. -/
  | stranger (q : σ) (env : Env (Socket ι σ)) (parsed : Option Value)
  /-- The room handles the `close` event of a socket. -/
  | close (s : Socket ι σ) (env : Env (Socket ι σ))

variable [DecidableEq ι] [DecidableEq σ]

/-- What an output brings to a socket. -/
def arrival (s : Socket ι σ) : Output (Socket ι σ) → Option Down
  | .send u m => if u = s then some (.message m) else none
  | .close u _ _ => if u = s then some .close else none

/-- The queues after some outputs. -/
def deliver (down : Socket ι σ → List Down) (out : List (Output (Socket ι σ))) :
    Socket ι σ → List Down := fun s => down s ++ out.filterMap (arrival s)

namespace Net

/-- The read loop of a daemon takes the first of what waits. -/
def read (w : Net c ι σ) (i : ι) (raw : String)
    (reply : Value → Except TransportError (Option String)) (nonce : Nonce) : Net c ι σ :=
  let d := w.daemon i
  match w.down (w.socket i) with
  | [] => w
  | .close :: rest =>
    { w with
      daemon := Function.update w.daemon i { d with connected := false }
      down := Function.update w.down (w.socket i) rest }
  | .message _ :: rest =>
    let handled := handleSignalMessage d.manager raw reply nonce
    { w with
      daemon := Function.update w.daemon i
        -- an error ends the connection
        ⟨handled.manager, d.connection, handled.result.isOk⟩
      down := Function.update w.down (w.socket i) rest
      up := Function.update w.up (w.socket i) (w.up (w.socket i) ++ handled.sent) }

/-- The room handles the message of a socket. -/
def handle (w : Net c ι σ) (s : Socket ι σ) (env : Env (Socket ι σ)) (parsed : Option Value) :
    Net c ι σ :=
  let t := onMessage env s parsed w.room
  { w with room := t.room, down := deliver w.down t.out }

instance decidableMemClosed (w : Net c ι σ) (s : Socket ι σ) : Decidable (s ∈ w.closed) :=
  List.instDecidableMemOfLawfulBEq s w.closed

end Net

/-- One thing happens. -/
def step (w : Net c ι σ) : Action ι σ → Net c ι σ
  | .connect i =>
    let d := w.daemon i
    if d.connected then w
    else
      { w with
        daemon := Function.update w.daemon i ⟨d.manager, d.connection + 1, true⟩
        up := Function.update w.up (.daemon i (d.connection + 1)) [joinMessage d.manager] }
  | .lose i =>
    { w with daemon := Function.update w.daemon i { w.daemon i with connected := false } }
  | .receive i raw reply nonce =>
    if (w.daemon i).connected then w.read i raw reply nonce else w
  | .serve i n env =>
    let s := .daemon i n
    if s ∈ w.closed then w
    else
      match w.up s with
      | [] => w
      | v :: rest => { w.handle s env (some v) with up := Function.update w.up s rest }
  | .stranger q env parsed =>
    if .stranger q ∈ w.closed then w else w.handle (.stranger q) env parsed
  | .close s env =>
    if s ∈ w.closed ∨ w.opened s = false then w
    else
      let t := onClose env s w.room
      { w with room := t.room, closed := s :: w.closed, down := deliver w.down t.out }

/-- The text a daemon reads stands for the message that was sent, and no send to a
daemon that is connected throws. -/
def Faithful (w : Net c ι σ) : Action ι σ → Prop
  | .receive i raw _ _ =>
      ∀ m rest, w.down (w.socket i) = .message m :: rest → c.fromStr raw = some (toValue m)
  | .serve _ _ env => ∀ i, (w.daemon i).connected = true → env.sendFails (w.socket i) = false
  | _ => True

/-- What is assumed of a step can be decided. -/
instance [Fintype ι] (w : Net c ι σ) : ∀ a, Decidable (Faithful w a)
  | .receive i raw reply nonce =>
    match h : w.down (w.socket i) with
    | .message m :: rest =>
      decidable_of_iff (c.fromStr raw = some (toValue m)) (by simp [Faithful, h])
    | .close :: rest => isTrue (by simp [Faithful, h])
    | [] => isTrue (by simp [Faithful, h])
  | .serve _ _ env =>
    inferInstanceAs (Decidable
      (∀ i, (w.daemon i).connected = true → env.sendFails (w.socket i) = false))
  | .connect _ => isTrue trivial
  | .lose _ => isTrue trivial
  | .stranger .. => isTrue trivial
  | .close .. => isTrue trivial

/-- The connection of a daemon is up at both ends, and the room knows it by the identity
of the daemon. -/
structure Joined (w : Net c ι σ) (i : ι) : Prop where
  connected : (w.daemon i).connected = true
  isOpen : w.socket i ∉ w.closed
  registered : ∃ x : Identity, x.val = (w.daemon i).manager.identity ∧
    Registered (w.socket i) x w.room

/-- Nothing waits on the connection of a daemon. -/
def Idle (w : Net c ι σ) (i : ι) : Prop := w.down (w.socket i) = [] ∧ w.up (w.socket i) = []

/-! ## What a daemon does on a message -/

theorem relay_sent (m : P2PManager c) (reply : Value → Except TransportError (Option String))
    (nonce : Nonce) (parsed : Value) :
    ∀ v ∈ (Transport.handleRelay m reply nonce parsed).sent,
      (v.get "type").bind Value.asStr = some "relay" := by
  unfold Transport.handleRelay
  split
  · simp
  · split
    · simp
    · split
      · simp
      · simp only
        split
        · simp
        · split
          · simp
          · split
            · simp
            · simp
            · simp only [Transport.sendReply]
              split
              · simp
              · simp [relayMessage]

/-- What a daemon sends on a message is an offer, an answer or a relay. -/
theorem signal_sent (m : P2PManager c) (raw : String)
    (reply : Value → Except TransportError (Option String)) (nonce : Nonce) :
    ∀ v ∈ (handleSignalMessage m raw reply nonce).sent,
      ∃ type ∈ ["offer", "answer", "relay"], (v.get "type").bind Value.asStr = some type := by
  simp only [handleSignalMessage]
  split
  · simp
  · split
    · split
      · intro v hv
        obtain ⟨peer, -, rfl⟩ := List.mem_map.1 hv
        exact ⟨"offer", by simp, by simp [offerMessage]⟩
      · simp
    · split
      · split <;> simp [offerMessage]
      · split
        · split
          · split <;> simp [answerMessage]
          · simp
        · split
          · split
            · split <;> simp
            · simp
          · split
            · exact fun v hv => ⟨"relay", by simp, relay_sent m reply nonce _ v hv⟩
            · simp

/-! ## Connections in order -/

/-- What holds of the connections at any time: a daemon keeps its name and derives its
sessions from it, a connection to come is known nowhere, and a `join` on a connection is
for the identity of its daemon. -/
structure Orderly (w : Net c ι σ) : Prop where
  distinct : ∀ i j, (w.daemon i).manager.identity = (w.daemon j).manager.identity → i = j
  derived : ∀ i p s, (w.daemon i).manager.sessions.get p = some s →
    ∃ peerPublic, parseIdentity c p = .ok peerPublic ∧
      sessionKey (w.daemon i).manager peerPublic = some s.key
  unknown : ∀ i n, (w.daemon i).connection < n →
    w.room.sockets.get (.daemon i n) = none ∧ w.up (.daemon i n) = []
  joins : ∀ i n, ∀ v ∈ w.up (.daemon i n), (v.get "type").bind Value.asStr = some "join" →
    v.get "identity" = some (.string (w.daemon i).manager.identity)

/-- A message tells the room of no other socket than its own. -/
theorem sockets_onMessage {Ws : Type} [DecidableEq Ws] {s u : Ws} (hus : u ≠ s) (env : Env Ws)
    (parsed : Option Value) {room : SignalRoom Ws} (hu : room.sockets.get u = none) :
    (onMessage env s parsed room).room.sockets.get u = none := by
  have hmaps := Signal.onMessage_maps env s parsed room
  cases hj : joinAccepted env s parsed room with
  | none =>
      rw [hj] at hmaps
      rw [hmaps.2, hu]
  | some x =>
      rw [hj] at hmaps
      obtain ⟨j, hroom⟩ := hmaps
      rw [hroom, Signal.get_sockets_registered, if_neg (Ne.symm hus), hu]
      split <;> rfl

/-- What a daemon has become after a step. -/
theorem step_daemon (w : Net c ι σ) (a : Action ι σ) (i : ι) :
    Grows (w.daemon i).manager ((step w a).daemon i).manager ∧
      (w.daemon i).connection ≤ ((step w a).daemon i).connection := by
  have hsame : Grows (w.daemon i).manager (w.daemon i).manager ∧
      (w.daemon i).connection ≤ (w.daemon i).connection := ⟨Grows.refl _, le_rfl⟩
  have hupdate (k : ι) (d : Daemon c) (hd : Grows (w.daemon k).manager d.manager)
      (hn : (w.daemon k).connection ≤ d.connection) :
      Grows (w.daemon i).manager (Function.update w.daemon k d i).manager ∧
        (w.daemon i).connection ≤ (Function.update w.daemon k d i).connection := by
    by_cases hik : i = k
    · subst hik
      rw [Function.update_self]
      exact ⟨hd, hn⟩
    · rw [Function.update_of_ne hik]
      exact hsame
  cases a with
  | connect k =>
      simp only [step]
      split
      · exact hsame
      · exact hupdate k _ (Grows.refl _) (Nat.le_succ _)
  | lose k => exact hupdate k _ (Grows.refl _) le_rfl
  | receive k raw reply nonce =>
      simp only [step, Net.read]
      split
      · split
        · exact hsame
        · exact hupdate k _ (Grows.refl _) le_rfl
        · exact hupdate k _ (Grows.signal ..) le_rfl
      · exact hsame
  | serve k n env =>
      simp only [step]
      split
      · exact hsame
      · split <;> exact hsame
  | stranger q env parsed =>
      simp only [step]
      split <;> exact hsame
  | close s env =>
      simp only [step]
      split <;> exact hsame

theorem identity_step (w : Net c ι σ) (a : Action ι σ) (i : ι) :
    ((step w a).daemon i).manager.identity = (w.daemon i).manager.identity := by
  rw [(step_daemon w a i).1.same]
  rfl

theorem orderly_start (hhex : c.HexRoundTrip) {secret : ι → Key}
    (hdistinct : Function.Injective fun i => c.x25519Public (secret i)) :
    Orderly (Net.start c σ secret) := by
  refine ⟨fun i j h => ?_, fun i p s h => ?_, fun i n _ => ?_, fun i n v hv => ?_⟩
  · have hbytes := congrArg c.hexDecode h
    simp only [Net.start, P2PManager.new, P2PManager.identity, hhex _, Option.some.injEq] at hbytes
    exact hdistinct (List.Vector.toList_injective hbytes)
  · simp [Net.start, P2PManager.new] at h
  · simp [Net.start, SignalRoom.new]
  · simp [Net.start] at hv

theorem Orderly.step_derived {w : Net c ι σ} (h : Orderly w) (a : Action ι σ) (i : ι)
    (p : String) (s : Session) (hs : ((step w a).daemon i).manager.sessions.get p = some s) :
    ∃ peerPublic, parseIdentity c p = .ok peerPublic ∧
      sessionKey ((step w a).daemon i).manager peerPublic = some s.key := by
  have hgrow := (step_daemon w a i).1
  have hkey : sessionKey ((step w a).daemon i).manager = sessionKey (w.daemon i).manager := by
    rw [hgrow.same]
    rfl
  rw [hkey]
  cases hbefore : (w.daemon i).manager.sessions.get p with
  | none => exact hgrow.fresh p s hs hbefore
  | some t =>
      obtain ⟨u, hu, hukey⟩ := hgrow.kept p t hbefore
      rw [hs, Option.some.injEq] at hu
      rw [hu, hukey]
      exact h.derived i p t hbefore

theorem Orderly.step_unknown {w : Net c ι σ} (h : Orderly w) (a : Action ι σ) (i : ι) (n : Nat)
    (hn : ((step w a).daemon i).connection < n) :
    (step w a).room.sockets.get (.daemon i n) = none ∧ (step w a).up (.daemon i n) = [] := by
  have hbefore := h.unknown i n (lt_of_le_of_lt (step_daemon w a i).2 hn)
  cases a with
  | connect k =>
      simp only [step] at hn ⊢
      split
      · exact hbefore
      · next hc =>
          rw [if_neg hc] at hn
          refine ⟨hbefore.1, ?_⟩
          rcases eq_or_ne (Socket.daemon i n : Socket ι σ)
            (.daemon k ((w.daemon k).connection + 1)) with hk | hk
          · -- the new connection is none to come
            simp only [Socket.daemon.injEq] at hk
            obtain ⟨rfl, rfl⟩ := hk
            simp at hn
          · simp only [Function.update_of_ne hk]
            exact hbefore.2
  | lose k => exact hbefore
  | receive k raw reply nonce =>
      simp only [step, Net.read] at hn ⊢
      split
      · split
        · exact hbefore
        · exact hbefore
        · refine ⟨hbefore.1, ?_⟩
          have hk : Socket.daemon i n ≠ w.socket k := by
            intro hk
            simp only [Net.socket, Socket.daemon.injEq] at hk
            obtain ⟨rfl, rfl⟩ := hk
            exact absurd (lt_of_le_of_lt (step_daemon w (.receive i raw reply nonce) i).2 hn)
              (lt_irrefl _)
          simp only [Function.update_of_ne hk]
          exact hbefore.2
      · exact hbefore
  | serve k m env =>
      simp only [step]
      split
      · exact hbefore
      · split
        · exact hbefore
        · next v rest hup =>
            have hk : Socket.daemon i n ≠ (Socket.daemon k m : Socket ι σ) := by
              rintro hk
              rw [← hk, hbefore.2] at hup
              exact absurd hup (by simp)
            exact ⟨sockets_onMessage hk env _ hbefore.1, by
              simp only [Function.update_of_ne hk, hbefore.2]⟩
  | stranger q env parsed =>
      simp only [step]
      split
      · exact hbefore
      · exact ⟨sockets_onMessage (by simp) env _ hbefore.1, hbefore.2⟩
  | close s env =>
      simp only [step]
      split
      · exact hbefore
      · next hc =>
          have hs : Socket.daemon i n ≠ s := by
            rintro rfl
            have hle : n ≤ (w.daemon i).connection := by simpa [Net.opened] using (not_or.1 hc).2
            exact absurd (lt_of_lt_of_le hn hle) (not_lt.2 (step_daemon w (.close _ env) i).2)
          exact ⟨by rw [Signal.get_sockets_onClose hs, hbefore.1], hbefore.2⟩

theorem Orderly.step_joins {w : Net c ι σ} (h : Orderly w) (a : Action ι σ) (i : ι) (n : Nat) :
    ∀ v ∈ (step w a).up (.daemon i n), (v.get "type").bind Value.asStr = some "join" →
      v.get "identity" = some (.string ((step w a).daemon i).manager.identity) := by
  rw [identity_step]
  have hbefore := h.joins i n
  cases a with
  | connect k =>
      simp only [step]
      split
      · exact hbefore
      · rcases eq_or_ne (Socket.daemon i n : Socket ι σ)
          (.daemon k ((w.daemon k).connection + 1)) with hk | hk
        · simp only [hk, Function.update_self]
          simp only [Socket.daemon.injEq] at hk
          obtain ⟨rfl, -⟩ := hk
          intro v hv _
          rw [List.mem_singleton.1 hv]
          rfl
        · simp only [Function.update_of_ne hk]
          exact hbefore
  | lose k => exact hbefore
  | receive k raw reply nonce =>
      simp only [step, Net.read]
      split
      · split
        · exact hbefore
        · exact hbefore
        · intro v hv htype
          by_cases hk : Socket.daemon i n = w.socket k
          · simp only [hk, Function.update_self, List.mem_append] at hv
            rcases hv with hv | hv
            · exact hbefore v (hk ▸ hv) htype
            · -- what a daemon sends on a message is no `join`
              obtain ⟨type, hmem, hother⟩ := signal_sent _ raw reply nonce v hv
              rw [htype, Option.some.injEq] at hother
              subst hother
              simp at hmem
          · simp only [Function.update_of_ne hk] at hv
            exact hbefore v hv htype
      · exact hbefore
  | serve k m env =>
      simp only [step]
      split
      · exact hbefore
      · split
        · exact hbefore
        · next v rest hup =>
            intro u hu
            by_cases hk : Socket.daemon i n = (Socket.daemon k m : Socket ι σ)
            · simp only [hk, Function.update_self] at hu
              exact hbefore u (by rw [hk, hup]; exact List.mem_cons_of_mem v hu)
            · simp only [Function.update_of_ne hk] at hu
              exact hbefore u hu
  | stranger q env parsed =>
      simp only [step]
      split <;> exact hbefore
  | close s env =>
      simp only [step]
      split <;> exact hbefore

theorem Orderly.step {w : Net c ι σ} (h : Orderly w) (a : Action ι σ) : Orderly (step w a) :=
  ⟨fun i j hij => h.distinct i j (by rwa [identity_step, identity_step] at hij),
    h.step_derived a, h.step_unknown a, h.step_joins a⟩

theorem orderly_run (hhex : c.HexRoundTrip) {secret : ι → Key}
    (hdistinct : Function.Injective fun i => c.x25519Public (secret i)) (as : List (Action ι σ)) :
    Orderly (Runs.run step (Net.start c σ secret) as) :=
  Runs.run_invariant_of_forall Discovery.step (fun _ a h => h.step a)
    (orderly_start hhex hdistinct) as

end Discovery
end FolkAround
