import Mathlib.Algebra.BigOperators.Group.Finset.Piecewise
import Mathlib.Algebra.GroupWithZero.Nat
import Mathlib.Algebra.Order.BigOperators.Group.Finset
import FolkAround.Discovery.Meeting

/-!
# The exchange dies out

A message on its way is given a weight, such that the room and the daemons make less of
it than it weighed: an offer leads to an answer, an invitation to offers, a `join` to an
invitation and one announcement for everybody there.  So the messages run out, unless
somebody sends new ones.

* `downWeight`, `upWeight`, `cost` — the weights.
* `onMessage_cost`, `signal_cost` — handling a message costs less than it weighed.
* `Delivers` — a step that hands over what waits first on a connection, while nobody calls
  tools.
* `discovery_settles` — after any run, so many deliveries are possible and no more; and
  when none is, all daemons in the room share keys.
-/

namespace FolkAround
namespace Discovery

open Signal (SignalRoom Identity Outbound Output Env Turn onMessage joinAccepted)
open Transport (Crates P2PManager Key Nonce TransportError handleSignalMessage
  establishSession offerMessage answerMessage)

/-! ## Weights -/

/-- What a message can still lead to, on its way from the room. -/
def downWeight : Down → Nat
  | .message (.joined _ peers) => 4 * peers.length + 1
  | .message (.peerJoined _) => 5
  | .message (.envelope type _ _) => if type = "offer" then 3 else 1
  | _ => 1

/-- On its way to the room, where `k` peers at most will be. -/
def upWeight (k : Nat) (v : Value) : Nat :=
  let type := (v.get "type").bind Value.asStr
  if type = some "join" then 9 * k + 4 else if type = some "offer" then 4 else 2

section Room

variable {Ws : Type}

def outWeight : Output Ws → Nat
  | .send _ m => downWeight (.message m)
  | .close .. => 1

/-- The weight of what is sent. -/
def cost (out : List (Output Ws)) : Nat := (out.map outWeight).sum

theorem cost_send (env : Env Ws) (t : Turn Ws) (s : Ws) (m : Outbound) :
    cost (t.send env s m).out ≤ cost t.out + downWeight (.message m) := by
  unfold Turn.send
  split
  · exact Nat.le_add_right ..
  · split
    · exact Nat.le_add_right ..
    · simp [cost, outWeight]

theorem cost_close (t : Turn Ws) (s : Ws) (code : Nat) (reason : String) :
    cost (t.close s code reason).out ≤ cost t.out + 1 := by
  unfold Turn.close
  split
  · exact Nat.le_add_right ..
  · simp [cost, outWeight]

variable [DecidableEq Ws]

theorem cost_broadcast (env : Env Ws) (t : Turn Ws) (m : Outbound) (x : Option Ws) :
    cost (t.broadcast env m x).out ≤
      cost t.out + t.room.peers.keys.length * downWeight (.message m) := by
  unfold Turn.broadcast OrdMap.keys
  rw [List.length_map]
  generalize t.room.peers.entries = l
  induction l generalizing t with
  | nil => simp
  | cons p l ih =>
      rw [List.foldl_cons, List.length_cons, Nat.succ_mul]
      split
      · have h := ih t
        omega
      · have h := ih (t.send env p.2.ws m)
        have hsend := cost_send env t p.2.ws m
        omega

omit [DecidableEq Ws] in
theorem cost_recover (env : Env Ws) (s : Ws) (t : Turn Ws) :
    cost (t.recover env s).out ≤ cost t.out + 1 := by
  unfold Turn.recover
  split
  · exact cost_send env { t with thrown := false } s _
  · exact Nat.le_add_right ..

/-! ## A join -/

/-- One more key at most. -/
theorem length_keys_set {κ α : Type} [DecidableEq κ] (m : OrdMap κ α) (k : κ) (v : α) :
    (m.set k v).keys.length ≤ m.keys.length + 1 := by
  have h := OrdMap.keys_setL k v m.entries
  simp only [OrdMap.keys, OrdMap.set]
  rw [h]
  split
  · exact Nat.le_succ _
  · simp

theorem cost_acceptJoin (env : Env Ws) (s : Ws) (x : Identity) (j : Int) (t : Turn Ws) :
    cost (Signal.acceptJoin env s x j t).out ≤
      cost t.out + 9 * (t.room.peers.keys.length + 1) + 1 := by
  simp only [Signal.acceptJoin]
  generalize hu : ((t.modify fun room =>
    { room with peers := room.peers.set x ⟨s, j⟩ }).modify fun room =>
      { room with sockets := room.sockets.set s x }) = u
  have hout : cost u.out = cost t.out := by
    rw [← hu, Turn.modify_out, Turn.modify_out]
  have hpeers : u.room.peers.keys.length ≤ t.room.peers.keys.length + 1 := by
    rw [← hu]
    by_cases ht : t.thrown = true
    · simp [Turn.modify, ht]
    · simp only [Turn.modify, ht]
      exact length_keys_set ..
  -- everybody there is named once and told once
  have hnamed : (u.room.peers.keys.filter fun id => id ≠ x).length ≤ u.room.peers.keys.length :=
    List.length_filter_le ..
  have hjoined := cost_send env u s (.joined "" (u.room.peers.keys.filter fun id => id ≠ x))
  have hannounced := cost_broadcast env
    (u.send env s (.joined "" (u.room.peers.keys.filter fun id => id ≠ x))) (.peerJoined x) (some s)
  rw [Turn.send_room] at hannounced
  simp only [downWeight] at hjoined hannounced
  omega

theorem cost_handleJoin (env : Env Ws) (s : Ws) (msg : Value) (room : SignalRoom Ws) :
    cost (Signal.handleJoin env s msg (.start room)).out ≤
      9 * (room.peers.keys.length + 1) + 2 := by
  have hstart : cost (Turn.start room).out = 0 := rfl
  unfold Signal.handleJoin
  split
  · have h := cost_send env (.start room) s (.error "Invalid identity")
    simp only [downWeight] at h
    omega
  · next x _ =>
      split
      · have h := cost_acceptJoin env s x env.now (.start room)
        rw [Turn.start_room] at h
        omega
      · next e _ =>
          split
          · have h := cost_acceptJoin env s x env.now (.start room)
            rw [Turn.start_room] at h
            omega
          · split
            · have h := cost_close ((Turn.start room).send env s
                (.error "Identity recently joined, try later")) s 1008 "Identity recently joined"
              have h' := cost_send env (.start room) s (.error "Identity recently joined, try later")
              simp only [downWeight] at h'
              omega
            · have h := cost_acceptJoin env s x env.later
                (((Turn.start room).close e.ws 1000 "Replaced by newer connection").modify
                  fun room => { room with sockets := room.sockets.delete e.ws })
              have h' := cost_close (.start room) e.ws 1000 "Replaced by newer connection"
              rw [Turn.modify_out, Turn.modify_room (by rw [Turn.close_thrown, Turn.start_thrown]),
                Turn.close_room, Turn.start_room] at h
              dsimp only at h ⊢
              omega

/-! ## Any other message -/

/-- At most one thing was sent, and if an exception is on its way, nothing. -/
def OneSend (p : Outbound → Prop) (t : Turn Ws) : Prop :=
  t.out = [] ∨ t.thrown = false ∧ ∃ u m, t.out = [.send u m] ∧ p m

/-- The error messages, and the envelopes of one type. -/
def ErrorOr (type : String) : Outbound → Prop
  | .error _ => True
  | .envelope type' _ _ => type' = type
  | _ => False

omit [DecidableEq Ws] in
theorem oneSend_send {p : Outbound → Prop} {t : Turn Ws} (ht : t.out = []) {m : Outbound}
    (hm : p m) (env : Env Ws) (s : Ws) : OneSend p (t.send env s m) := by
  unfold Turn.send
  split
  · exact .inl ht
  · next h =>
      split
      · exact .inl ht
      · exact .inr ⟨by simpa using h, s, m, by simp [ht], hm⟩

omit [DecidableEq Ws] in
theorem oneSend_forward {t : Turn Ws} (ht : t.out = []) (env : Env Ws) (s : Ws) (type : String)
    (msg : Value) : OneSend (ErrorOr type) (Signal.forward env s type msg t) := by
  unfold Signal.forward
  split
  · split
    · exact oneSend_send ht (m := .error _) trivial env s
    · split
      · exact oneSend_send (p := ErrorOr type) ht (m := .envelope type _ _) rfl env _
      · exact .inl ht
  · exact oneSend_send ht (m := .error _) trivial env s

/-- A sender who is turned away hears an error. -/
theorem oneSend_isSender (env : Env Ws) (s : Ws) (identity : Option Value) (room : SignalRoom Ws)
    (type : String) :
    Signal.isSender env s identity (.start room) = (true, .start room) ∨
      ∃ t, Signal.isSender env s identity (.start room) = (false, t) ∧
        OneSend (ErrorOr type) t := by
  unfold Signal.isSender
  split
  · exact .inr ⟨_, rfl, oneSend_send rfl trivial env s⟩
  · split
    · exact .inl rfl
    · exact .inr ⟨_, rfl, oneSend_send rfl trivial env s⟩

theorem oneSend_handshake (env : Env Ws) (s : Ws) (type : String) (msg : Value)
    (room : SignalRoom Ws) :
    OneSend (ErrorOr type) (Signal.handleHandshake env s type msg (.start room)) := by
  unfold Signal.handleHandshake
  rcases oneSend_isSender env s (msg.get "from") room type with h | ⟨t, h, ht⟩
  · rw [h]
    exact oneSend_forward rfl env s type msg
  · rw [h]
    exact ht

theorem oneSend_relay (env : Env Ws) (s : Ws) (msg : Value) (room : SignalRoom Ws) :
    OneSend (ErrorOr "relay") (Signal.handleRelay env s msg (.start room)) := by
  unfold Signal.handleRelay
  rcases oneSend_isSender env s (msg.get "from") room "relay" with h | ⟨t, h, ht⟩
  · rw [h]
    simp only [Signal.checkRateLimit]
    split
    · next t' h' =>
        split at h'
        · rw [Prod.mk.injEq] at h'
          rw [← h'.2]
          exact oneSend_send (Turn.modify_out ..) trivial env s
        · exact absurd h' (by simp)
    · next t' h' =>
        split at h'
        · exact absurd h' (by simp)
        · rw [Prod.mk.injEq] at h'
          rw [← h'.2]
          exact oneSend_forward (Turn.modify_out ..) env s "relay" msg
  · rw [h]
    exact ht

/-- What is no `join` is answered or passed on, and not both. -/
theorem oneSend_message {msg : Value} (hjoin : (msg.get "type").bind Value.asStr ≠ some "join")
    (env : Env Ws) (s : Ws) (room : SignalRoom Ws) :
    ∃ type, (type = "offer" → (msg.get "type").bind Value.asStr = some "offer") ∧
      OneSend (ErrorOr type) (Signal.handleMessage env s msg (.start room)) := by
  simp only [Signal.handleMessage, if_neg hjoin]
  split
  · exact ⟨"", by simp, .inl rfl⟩
  · split
    · next h => exact ⟨"offer", fun _ => h, oneSend_handshake env s _ msg room⟩
    · split
      · exact ⟨"answer", by simp, oneSend_handshake env s _ msg room⟩
      · split
        · exact ⟨"relay", by simp, oneSend_relay env s msg room⟩
        · split
          · exact ⟨"", by simp, oneSend_send rfl trivial env s⟩
          · exact ⟨"", by simp, .inl rfl⟩

/-- **The room makes less of a message than it weighed.** -/
theorem onMessage_cost (env : Env Ws) (s : Ws) (msg : Value) (room : SignalRoom Ws) {k : Nat}
    (hk : (msg.get "type").bind Value.asStr = some "join" → room.peers.keys.length + 1 ≤ k) :
    cost (onMessage env s (some msg) room).out < upWeight k msg := by
  have hrecover := cost_recover env s (Signal.handleMessage env s msg (.start room))
  simp only [onMessage]
  by_cases hjoin : (msg.get "type").bind Value.asStr = some "join"
  · have h := cost_handleJoin env s msg room
    have hroom := hk hjoin
    rw [Signal.handleMessage_join hjoin] at hrecover ⊢
    simp only [upWeight, hjoin, if_true]
    omega
  · obtain ⟨type, htype, h | ⟨hthrown, u, m, hout, hm⟩⟩ := oneSend_message hjoin env s room
    · rw [h] at hrecover
      have hone : cost ([] : List (Output Ws)) = 0 := rfl
      simp only [upWeight, if_neg hjoin]
      split <;> omega
    · have hsame : (Signal.handleMessage env s msg (.start room)).recover env s =
          Signal.handleMessage env s msg (.start room) := by
        simp [Turn.recover, hthrown]
      rw [hsame, hout]
      simp only [upWeight, if_neg hjoin, cost, List.map_cons, List.map_nil, List.sum_cons,
        List.sum_nil, outWeight]
      cases m with
      | error _ =>
          simp only [downWeight]
          split <;> omega
      | envelope type' _ _ =>
          obtain rfl : type' = type := hm
          simp only [downWeight]
          by_cases hoffer : type' = "offer"
          · rw [if_pos hoffer, if_pos (htype hoffer)]
            decide
          · rw [if_neg hoffer]
            split <;> omega
      | _ => exact hm.elim

end Room

/-! ## What a daemon makes of a message -/

variable {c : Crates} {ι σ : Type}

/-- The weight of what a daemon sends. -/
def upCost (k : Nat) (vs : List Value) : Nat := (vs.map (upWeight k)).sum

theorem upCost_append (k : Nat) (vs ws : List Value) :
    upCost k (vs ++ ws) = upCost k vs + upCost k ws := by
  simp [upCost]

/-- A relay, which discovery has none of; there may be some under way all the same. -/
def IsRelay : Down → Prop
  | .message (.envelope type _ _) => type = "relay"
  | _ => False

theorem upWeight_offer (k : Nat) (m : P2PManager c) (peer : String) :
    upWeight k (offerMessage m peer) = 4 := by
  simp [upWeight, offerMessage]

theorem upWeight_answer (k : Nat) (m : P2PManager c) (peer : String) :
    upWeight k (answerMessage m peer) = 2 := by
  simp [upWeight, answerMessage]

theorem downWeight_pos (d : Down) : 0 < downWeight d := by
  cases d with
  | close => exact Nat.zero_lt_one
  | message m =>
      cases m with
      | envelope type x data =>
          simp only [downWeight]
          split <;> omega
      | _ => simp [downWeight]

/-- **A daemon makes less of a message than it weighed**, unless it answers a relay. -/
theorem signal_cost (k : Nat) (manager : P2PManager c) {raw : String} {m : Outbound}
    {reply : Value → Except TransportError (Option String)} {nonce : Nonce}
    (hraw : c.fromStr raw = some (toValue m))
    (hrelay : IsRelay (.message m) → (handleSignalMessage manager raw reply nonce).sent = []) :
    upCost k (handleSignalMessage manager raw reply nonce).sent < downWeight (.message m) := by
  by_cases hisRelay : IsRelay (.message m)
  · rw [hrelay hisRelay]
    exact downWeight_pos _
  cases m with
  | error message => simp [handleSignalMessage, hraw, toValue, upCost, downWeight]
  | joined room peers =>
      rw [handle_joined manager hraw]
      simp only [upCost, downWeight, List.map_map, Function.comp_def, upWeight_offer,
        List.map_const', List.sum_replicate_nat]
      omega
  | peerJoined x =>
      have htype : ((toValue (.peerJoined x)).get "type").bind Value.asStr =
          some "peer_joined" := rfl
      have hname : ((toValue (.peerJoined x)).get "identity").bind Value.asStr = some x.val := rfl
      simp [handleSignalMessage, hraw, htype, hname, upCost, downWeight, upWeight_offer]
  | peerLeft x => simp [handleSignalMessage, hraw, toValue, upCost, downWeight]
  | envelope type x data =>
      have htype : ((toValue (.envelope type x data)).get "type").bind Value.asStr =
          some type := rfl
      have hfrom : ((toValue (.envelope type x data)).get "from").bind Value.asStr =
          some x.val := rfl
      have hpeers : ((toValue (.envelope type x data)).get "peers").bind Value.asArray = none := by
        cases data <;> rfl
      have hname : ((toValue (.envelope type x data)).get "identity").bind Value.asStr = none := by
        cases data <;> rfl
      have hnone : upCost k [] = 0 := rfl
      have hone : 0 < downWeight (.message (.envelope type x data)) := downWeight_pos _
      simp only [handleSignalMessage, hraw, htype, hfrom, hpeers, hname, Option.getD_some]
      split
      · exact hone
      · split
        · exact hone
        · split
          · next hoffer =>
              split
              · exact hone
              · simp [upCost, upWeight_answer, downWeight, hoffer]
          · split
            · split <;> exact hone
            · have hother : type ≠ "relay" := hisRelay
              rw [if_neg hother]
              exact hone

/-! ## All that is under way -/

/-- Writing one value of a function, seen from a sum. -/
theorem sum_update {α β : Type} [DecidableEq α] (S : Finset α) (g : β → Nat) (f : α → β) {a : α}
    (ha : a ∈ S) (b : β) :
    ∑ x ∈ S, g (Function.update f a b x) + g (f a) = ∑ x ∈ S, g (f x) + g b := by
  have hrest : ∑ x ∈ S.erase a, g (Function.update f a b x) = ∑ x ∈ S.erase a, g (f x) :=
    Finset.sum_congr rfl fun x hx => by rw [Function.update_of_ne (Finset.ne_of_mem_erase hx)]
  rw [← Finset.add_sum_erase S _ ha, ← Finset.add_sum_erase S (fun x => g (f x)) ha, hrest,
    Function.update_self]
  omega

variable [DecidableEq ι] [DecidableEq σ]

/-- The weight of what waits for a socket. -/
def downCost (ds : List Down) : Nat := (ds.map downWeight).sum

/-- An output weighs on one socket. -/
theorem sum_arrivals (S : Finset (Socket ι σ)) (out : List (Output (Socket ι σ))) :
    ∑ s ∈ S, downCost (out.filterMap (arrival s)) ≤ cost out := by
  induction out with
  | nil => simp [downCost]
  | cons o out ih =>
      have hone (u : Socket ι σ) (d : Down) (h : ∀ s, arrival s o = if u = s then some d else none)
          (hw : outWeight o = downWeight d) :
          ∑ s ∈ S, downCost ((o :: out).filterMap (arrival s)) ≤ cost (o :: out) := by
        have hsplit (s : Socket ι σ) : downCost ((o :: out).filterMap (arrival s)) =
            (if u = s then downWeight d else 0) + downCost (out.filterMap (arrival s)) := by
          rw [List.filterMap_cons, h s]
          by_cases hs : u = s
          · simp [hs, downCost]
          · simp [hs]
        have hleft : ∑ s ∈ S, (if u = s then downWeight d else 0) ≤ downWeight d := by
          rw [Finset.sum_ite_eq]
          split <;> simp
        rw [Finset.sum_congr rfl fun s _ => hsplit s, Finset.sum_add_distrib]
        simp only [cost, List.map_cons, List.sum_cons] at ih ⊢
        omega
      cases o with
      | send u m => exact hone u (.message m) (fun s => rfl) rfl
      | close u code reason => exact hone u .close (fun s => rfl) rfl

/-- A `join` that was not handled yet. -/
def isJoin (v : Value) : Bool := decide ((v.get "type").bind Value.asStr = some "join")

/-- The joins among some messages. -/
def joins (vs : List Value) : Nat := (vs.filter isJoin).length

/-- The sockets there were so far. -/
def Net.sockets [Fintype ι] (w : Net c ι σ) : Finset (Socket ι σ) :=
  Finset.univ.biUnion fun i =>
    (Finset.range ((w.daemon i).connection + 1)).image (Socket.daemon i)

theorem mem_sockets [Fintype ι] {w : Net c ι σ} {i : ι} {n : Nat} :
    .daemon i n ∈ w.sockets ↔ n ≤ (w.daemon i).connection := by
  simp only [Net.sockets, Finset.mem_biUnion, Finset.mem_univ, true_and, Finset.mem_image,
    Finset.mem_range]
  constructor
  · rintro ⟨j, k, hk, heq⟩
    obtain ⟨rfl, rfl⟩ := Socket.daemon.inj heq
    exact Nat.le_of_lt_succ hk
  · exact fun hn => ⟨i, n, Nat.lt_succ_of_le hn, rfl⟩

/-- So many peers there can come to be, if nobody else joins. -/
def peersBound (S : Finset (Socket ι σ)) (w : Net c ι σ) : Nat :=
  w.room.peers.keys.length + ∑ s ∈ S, joins (w.up s)

/-- The weight of all that is on the way on some sockets. -/
def weightOn (S : Finset (Socket ι σ)) (k : Nat) (w : Net c ι σ) : Nat :=
  ∑ s ∈ S, downCost (w.down s) + ∑ s ∈ S, upCost k (w.up s)

/-- The weight of all that is on the way. -/
def weight [Fintype ι] (w : Net c ι σ) : Nat := weightOn w.sockets (peersBound w.sockets w) w

/-- What waits first on a connection is handed over, and a daemon that gets a relay does not
answer it. -/
def Delivers (w : Net c ι σ) : Action ι σ → Prop
  | .receive i raw reply nonce => (w.daemon i).connected = true ∧
      ∃ d rest, w.down (w.socket i) = d :: rest ∧
        (IsRelay d → (handleSignalMessage (w.daemon i).manager raw reply nonce).sent = [])
  | .serve i n _ => .daemon i n ∉ w.closed ∧ w.up (.daemon i n) ≠ []
  | _ => False

instance : ∀ d, Decidable (IsRelay d)
  | .message (.envelope type _ _) => inferInstanceAs (Decidable (type = "relay"))
  | .message (.error _) => isFalse id
  | .message (.joined ..) => isFalse id
  | .message (.peerJoined _) => isFalse id
  | .message (.peerLeft _) => isFalse id
  | .close => isFalse id

instance (w : Net c ι σ) : ∀ a, Decidable (Delivers w a)
  | .receive i raw reply nonce =>
    match h : w.down (w.socket i) with
    | [] => isFalse (by simp [Delivers, h])
    | d :: rest =>
      decidable_of_iff ((w.daemon i).connected = true ∧ (IsRelay d →
          (handleSignalMessage (w.daemon i).manager raw reply nonce).sent.isEmpty = true))
        (by simp [Delivers, h])
  | .serve i n _ =>
    decidable_of_iff (.daemon i n ∉ w.closed ∧ (w.up (.daemon i n)).isEmpty = false)
      (by simp [Delivers])
  | .connect _ => isFalse id
  | .lose _ => isFalse id
  | .stranger .. => isFalse id
  | .close .. => isFalse id

/-! ## A delivery weighs less -/

/-- The room grows by a `join` at most, and by one. -/
theorem length_peers_onMessage {Ws : Type} [DecidableEq Ws] (env : Env Ws) (s : Ws) (v : Value)
    (room : SignalRoom Ws) :
    (onMessage env s (some v) room).room.peers.keys.length ≤
      room.peers.keys.length + joins [v] := by
  have hmaps := Signal.onMessage_maps env s (some v) room
  cases hj : joinAccepted env s (some v) room with
  | none =>
      rw [hj] at hmaps
      rw [hmaps.1]
      exact Nat.le_add_right ..
  | some x =>
      rw [hj] at hmaps
      obtain ⟨j, hroom⟩ := hmaps
      have hone : joins [v] = 1 := by
        simp [joins, isJoin, Signal.joinAccepted_type hj]
      rw [hroom, hone]
      exact length_keys_set ..

theorem joins_sent (m : P2PManager c) (raw : String)
    (reply : Value → Except TransportError (Option String)) (nonce : Nonce) :
    joins (handleSignalMessage m raw reply nonce).sent = 0 := by
  rw [joins, List.length_eq_zero_iff, List.filter_eq_nil_iff]
  intro v hv
  obtain ⟨type, hmem, htype⟩ := signal_sent m raw reply nonce v hv
  rw [isJoin, htype, decide_eq_true_eq, Option.some.injEq]
  rintro rfl
  simp at hmem

theorem sockets_of_connection [Fintype ι] {w w' : Net c ι σ}
    (h : ∀ i, (w'.daemon i).connection = (w.daemon i).connection) : w'.sockets = w.sockets := by
  unfold Net.sockets
  exact Finset.biUnion_congr rfl fun i _ => by rw [h i]

/-- A daemon reads. -/
theorem receive_lighter [Fintype ι] {w : Net c ι σ} {k : Nat} {i : ι} {raw : String}
    {reply : Value → Except TransportError (Option String)} {nonce : Nonce}
    (ha : Delivers w (.receive i raw reply nonce))
    (hfaithful : Faithful w (.receive i raw reply nonce)) :
    (step w (.receive i raw reply nonce)).sockets = w.sockets ∧
      peersBound w.sockets (step w (.receive i raw reply nonce)) = peersBound w.sockets w ∧
      weightOn w.sockets k (step w (.receive i raw reply nonce)) < weightOn w.sockets k w := by
  obtain ⟨hcon, d, rest, hdown, hrelay⟩ := ha
  have hmem : w.socket i ∈ w.sockets := mem_sockets.2 le_rfl
  have hdowns := sum_update w.sockets downCost w.down hmem rest
  have hpop : downCost (w.down (w.socket i)) = downWeight d + downCost rest := by
    simp [hdown, downCost]
  have hconnection (e : Daemon c) (he : e.connection = (w.daemon i).connection) (j : ι) :
      (Function.update w.daemon i e j).connection = (w.daemon j).connection := by
    by_cases hj : j = i
    · subst hj
      rw [Function.update_self, he]
    · rw [Function.update_of_ne hj]
  cases d with
  | close =>
      simp only [step, Net.read, hdown, if_pos hcon]
      refine ⟨sockets_of_connection (hconnection _ rfl), rfl, ?_⟩
      simp only [weightOn]
      simp only [downWeight] at hpop
      omega
  | message m =>
      have hcost := signal_cost k (w.daemon i).manager (hfaithful _ _ hdown) hrelay
      have hjoins := joins_sent (w.daemon i).manager raw reply nonce
      rw [step_receive hcon hdown]
      generalize handleSignalMessage (w.daemon i).manager raw reply nonce = handled at hcost hjoins ⊢
      have hups := sum_update w.sockets (upCost k) w.up hmem (w.up (w.socket i) ++ handled.sent)
      have hcounts := sum_update w.sockets joins w.up hmem (w.up (w.socket i) ++ handled.sent)
      have hsent : joins (w.up (w.socket i) ++ handled.sent) = joins (w.up (w.socket i)) := by
        simp only [joins, List.filter_append, List.length_append] at hjoins ⊢
        omega
      rw [upCost_append] at hups
      refine ⟨sockets_of_connection (hconnection _ rfl), ?_, ?_⟩
      · simp only [peersBound]
        omega
      · simp only [weightOn]
        omega

/-- The room handles a message. -/
theorem serve_lighter [Fintype ι] {w : Net c ι σ} (ho : Orderly w) {k : Nat}
    (hk : peersBound w.sockets w ≤ k) {i : ι} {n : Nat} {env : Env (Socket ι σ)}
    (ha : Delivers w (.serve i n env)) :
    (step w (.serve i n env)).sockets = w.sockets ∧
      peersBound w.sockets (step w (.serve i n env)) ≤ peersBound w.sockets w ∧
      weightOn w.sockets k (step w (.serve i n env)) < weightOn w.sockets k w := by
  obtain ⟨hopen, hne⟩ := ha
  obtain ⟨v, rest, hup⟩ := List.exists_cons_of_ne_nil hne
  -- a connection to come has sent nothing
  have hmem : .daemon i n ∈ w.sockets := by
    rw [mem_sockets]
    by_contra hlt
    exact hne (ho.unknown i n (not_le.1 hlt)).2
  have hups := sum_update w.sockets (upCost k) w.up hmem rest
  have hcounts := sum_update w.sockets joins w.up hmem rest
  have hpop : upCost k (w.up (.daemon i n)) = upWeight k v + upCost k rest := by
    simp [hup, upCost]
  have hcount : joins (w.up (.daemon i n)) = joins [v] + joins rest := by
    rw [hup, joins, joins, joins, ← List.length_append, ← List.filter_append]
    rfl
  have hpeers := length_peers_onMessage env (.daemon i n) v w.room
  simp only [peersBound] at hk
  have hcost := onMessage_cost env (.daemon i n) v w.room (k := k) (by
    intro hjoin
    have hone : joins [v] = 1 := by simp [joins, isJoin, hjoin]
    have hall : joins (w.up (.daemon i n)) ≤ ∑ s ∈ w.sockets, joins (w.up s) :=
      Finset.single_le_sum (f := fun s => joins (w.up s)) (fun _ _ => Nat.zero_le _) hmem
    omega)
  have harrivals := sum_arrivals w.sockets (onMessage env (.daemon i n) (some v) w.room).out
  have hdowns : ∑ s ∈ w.sockets, downCost (deliver w.down
        (onMessage env (.daemon i n) (some v) w.room).out s) =
      ∑ s ∈ w.sockets, downCost (w.down s) + ∑ s ∈ w.sockets, downCost
        ((onMessage env (.daemon i n) (some v) w.room).out.filterMap (arrival s)) := by
    rw [← Finset.sum_add_distrib]
    exact Finset.sum_congr rfl fun s _ => by simp [deliver, downCost]
  simp only [step, if_neg hopen, hup]
  refine ⟨rfl, ?_, ?_⟩
  · simp only [peersBound, Net.handle]
    omega
  · simp only [weightOn, Net.handle]
    omega

/-- **Every delivery weighs less than it takes.** -/
theorem delivery_lighter [Fintype ι] {w : Net c ι σ} (ho : Orderly w) {k : Nat}
    (hk : peersBound w.sockets w ≤ k) {a : Action ι σ} (ha : Delivers w a)
    (hfaithful : Faithful w a) :
    (step w a).sockets = w.sockets ∧
      peersBound w.sockets (step w a) ≤ peersBound w.sockets w ∧
      weightOn w.sockets k (step w a) < weightOn w.sockets k w := by
  cases a with
  | receive i raw reply nonce =>
      obtain ⟨hsockets, hpeers, hweight⟩ := receive_lighter (k := k) ha hfaithful
      exact ⟨hsockets, hpeers.le, hweight⟩
  | serve i n env => exact serve_lighter ho hk ha
  | _ => exact ha.elim

/-! ## The result -/

/-- Nothing waits on a connection that is up. -/
def Settled (w : Net c ι σ) : Prop :=
  ∀ i, (w.daemon i).connected = true → w.socket i ∉ w.closed → Idle w i

/-- **Discovery settles.**  After any run the exchange of invitations, offers and answers
dies out: as long as no relay is answered, no more deliveries can follow than all that is on
the way weighs.  And when everything has been delivered, every two daemons in the room share a
key. -/
theorem discovery_settles [Fintype ι] (hshared : c.SharedComm) (hhex : c.HexRoundTrip)
    {secret : ι → Key} (hdistinct : Function.Injective fun i => c.x25519Public (secret i))
    (as bs : List (Action ι σ))
    (has : Runs.StepsMeet step Faithful (Net.start c σ secret) as)
    (hbs : Runs.StepsMeet step (fun w a => Delivers w a ∧ Faithful w a)
      (Runs.run step (Net.start c σ secret) as) bs) :
    let w := Runs.run step (Net.start c σ secret) as
    let w' := Runs.run step w bs
    bs.length ≤ weight w ∧
      (Settled w' → ∀ i j, i ≠ j → Joined w' i → Joined w' j →
        ∃ s t, (w'.daemon i).manager.sessions.get (w'.daemon j).manager.identity = some s ∧
          (w'.daemon j).manager.sessions.get (w'.daemon i).manager.identity = some t ∧
          s.key = t.key) := by
  intro w w'
  have ho : Orderly w := orderly_run hhex hdistinct as
  constructor
  · refine Runs.length_le_measure step
      (fun u => Orderly u ∧ u.sockets = w.sockets ∧
        peersBound w.sockets u ≤ peersBound w.sockets w)
      (weightOn w.sockets (peersBound w.sockets w)) ?_ ⟨ho, rfl, le_rfl⟩ hbs
    rintro u a ⟨hu, hsockets, hpeers⟩ ⟨ha, hfaithful⟩
    obtain ⟨hsockets', hpeers', hweight⟩ :=
      delivery_lighter hu (k := peersBound w.sockets w) (by rwa [hsockets]) ha hfaithful
    rw [hsockets] at hsockets' hpeers' hweight
    exact ⟨⟨hu.step a, hsockets', hpeers'.trans hpeers⟩, hweight⟩
  · intro hsettled i j hij hi hj
    have hall : Runs.StepsMeet step Faithful (Net.start c σ secret) (as ++ bs) :=
      (Runs.stepsMeet_append step).2 ⟨has, Runs.stepsMeet_mono step (fun _ _ h => h.2) hbs⟩
    obtain ⟨ho', hmet⟩ := met_run hhex hdistinct hall
    rw [Runs.run_append] at ho' hmet
    exact hmet.share ho' hshared hhex hij hi hj (hsettled i hi.connected hi.isOpen)
      (hsettled j hj.connected hj.isOpen)

namespace Sample

/-- Once the two have connected, all they do is deliver. -/
theorem schedule_delivers :
    Runs.StepsMeet step (fun w a => Delivers w a ∧ Faithful w a)
      (Runs.run step (Net.start crates Empty Transport.Reference.secrets) (schedule.take 2))
      (schedule.drop 2) := by
  decide +kernel

end Sample

open Sample Transport.Reference in
theorem discovery_settles_two :
    (schedule.drop 2).length ≤
        weight (Runs.run step (Net.start crates Empty secrets) (schedule.take 2)) ∧
      ∃ s t, (net.daemon false).manager.sessions.get (net.daemon true).manager.identity = some s ∧
        (net.daemon true).manager.sessions.get (net.daemon false).manager.identity = some t ∧
        s.key = t.key := by
  have hshared : crates.SharedComm := fun a _ => Transport.meet_comm (x25519Public a) _
  have hhex : crates.HexRoundTrip := hexDecode_hexEncode
  have hdistinct : Function.Injective fun i => crates.x25519Public (secrets i) := by decide +kernel
  have hconnects : Runs.StepsMeet step Faithful (Net.start crates Empty secrets)
      (schedule.take 2) := ⟨trivial, trivial, trivial⟩
  have h := discovery_settles hshared hhex hdistinct _ _ hconnects schedule_delivers
  have hjoined := joined_net
  have hidle := idle_net
  have hrun : Runs.run step (Runs.run step (Net.start crates Empty secrets) (schedule.take 2))
      (schedule.drop 2) = net := by rw [← Runs.run_append, List.take_append_drop, net]
  simp only [hrun] at h
  exact ⟨h.1, h.2 (fun i _ _ => hidle i) false true Bool.false_ne_true (hjoined false)
    (hjoined true)⟩

end Discovery
end FolkAround
