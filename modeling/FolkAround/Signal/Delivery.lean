import FolkAround.Signal.Room

/-!
# What a message is sure to send

The other modules on the room say what a message can lead to at most.  This one says
what it does lead to, provided the one send in question does not throw.

* `Turn.send_mem`, `Turn.broadcast_prefix` — what was sent stays sent.
* `onMessage_joined` — an accepted join is answered with the identities of everyone
  else in the room, even if the announcement to the others fails.
* `onMessage_forwarded` — an offer or answer of a registered socket to a registered
  one is passed on, and nothing else happens.
-/

namespace FolkAround
namespace Signal

variable {Ws : Type} [DecidableEq Ws]

namespace Turn

omit [DecidableEq Ws] in
theorem send_appends (env : Env Ws) (t : Turn Ws) (s : Ws) (m : Outbound) :
    t.out <+: (t.send env s m).out := by
  unfold Turn.send
  split
  · exact List.prefix_rfl
  · split
    · exact List.prefix_rfl
    · exact List.prefix_append ..

theorem broadcast_prefix (env : Env Ws) (t : Turn Ws) (m : Outbound) (x : Option Ws) :
    t.out <+: (t.broadcast env m x).out := by
  unfold Turn.broadcast
  generalize t.room.peers.entries = l
  induction l generalizing t with
  | nil => exact List.prefix_rfl
  | cons p l ih =>
      rw [List.foldl_cons]
      split
      · exact ih t
      · exact (send_appends env t p.2.ws m).trans (ih _)

omit [DecidableEq Ws] in
theorem recover_prefix (env : Env Ws) (s : Ws) (t : Turn Ws) : t.out <+: (t.recover env s).out := by
  unfold Turn.recover
  split
  · exact send_appends env { t with thrown := false } s _
  · exact List.prefix_rfl

omit [DecidableEq Ws] in
/-- A send that does not throw is among the outputs. -/
theorem send_mem {env : Env Ws} {t : Turn Ws} {s : Ws} (ht : t.thrown = false)
    (hs : env.sendFails s = false) (m : Outbound) : .send s m ∈ (t.send env s m).out := by
  simp [Turn.send, ht, hs]

end Turn

/-! ## An accepted join -/

theorem acceptJoin_joined {env : Env Ws} {s : Ws} {t : Turn Ws} (ht : t.thrown = false)
    (hs : env.sendFails s = false) (x : Identity) (j : Int) :
    .send s (.joined "" ((t.room.peers.set x ⟨s, j⟩).keys.filter fun id => id ≠ x)) ∈
      (acceptJoin env s x j t).out := by
  have hgrow := Turn.broadcast_prefix env
    (((t.modify fun room => { room with peers := room.peers.set x ⟨s, j⟩ }).modify
      fun room => { room with sockets := room.sockets.set s x }).send env s
        (.joined "" ((t.room.peers.set x ⟨s, j⟩).keys.filter fun id => id ≠ x)))
    (.peerJoined x) (some s)
  have hsent := Turn.send_mem (t := (t.modify fun room =>
      { room with peers := room.peers.set x ⟨s, j⟩ }).modify
      fun room => { room with sockets := room.sockets.set s x })
    (by rw [Turn.modify_thrown, Turn.modify_thrown, ht]) hs
    (.joined "" ((t.room.peers.set x ⟨s, j⟩).keys.filter fun id => id ≠ x))
  simp only [acceptJoin, Turn.modify, ht] at hsent hgrow ⊢
  exact hgrow.subset hsent

/-- **An accepted join is answered** with everyone else who is in the room. -/
theorem onMessage_joined {env : Env Ws} {s : Ws} {parsed : Option Value} {room : SignalRoom Ws}
    {x : Identity} (hj : joinAccepted env s parsed room = some x) (hs : env.sendFails s = false) :
    ∃ peers, .send s (.joined "" peers) ∈ (onMessage env s parsed room).out ∧
      ∀ y, y ≠ x → (∃ e, room.peers.get y = some e) → y ∈ peers := by
  cases parsed with
  | none => exact absurd hj (by simp [joinAccepted])
  | some msg =>
      obtain ⟨j, hjoin⟩ := handleJoin_accepted hj
      have hroom : (beforeJoin s x room).room.peers = room.peers := by
        unfold beforeJoin
        split
        · rfl
        · rw [Turn.modify_room (by rw [Turn.close_thrown, Turn.start_thrown]), Turn.close_room,
            Turn.start_room]
      have hmem := acceptJoin_joined (beforeJoin_thrown s x room) hs x j
      rw [hroom, ← hjoin] at hmem
      refine ⟨(room.peers.set x ⟨s, j⟩).keys.filter fun id => id ≠ x, ?_, fun y hy hin => ?_⟩
      · simp only [onMessage, handleMessage_join (joinAccepted_type hj)]
        exact (Turn.recover_prefix env s _).subset hmem
      · rw [List.mem_filter, OrdMap.mem_keys_set, OrdMap.mem_keys_iff]
        exact ⟨.inr hin, by simpa using hy⟩

/-! ## An offer or an answer -/

/-- **A handshake message is passed on**, if both ends are registered. -/
theorem onMessage_forwarded {env : Env Ws} {s : Ws} {msg : Value} {room : SignalRoom Ws}
    {type : String} {x y : Identity} {e : PeerEntry Ws}
    (htype : (msg.get "type").bind Value.asStr = some type)
    (hhandshake : type = "offer" ∨ type = "answer")
    (hfrom : msg.get "from" = some (.string x.val)) (hto : msg.get "to" = some (.string y.val))
    (hx : room.sockets.get s = some x) (hy : room.peers.get y = some e)
    (hsize : messageSize env.js (msg.get "data") ≤ maxMessageBytes)
    (hs : env.sendFails e.ws = false) :
    onMessage env s (some msg) room =
      ⟨room, [.send e.ws (.envelope type x (msg.get "data"))], false⟩ := by
  have hidentity (z : Identity) : isIdentity (some (.string z.val)) = some z := by
    simp [isIdentity, z.2]
  have hsender : isSender env s (msg.get "from") (.start room) = (true, .start room) := by
    simp [isSender, hx, hfrom]
  have hforward : forward env s type msg (.start room) =
      ⟨room, [.send e.ws (.envelope type x (msg.get "data"))], false⟩ := by
    simp only [forward, hfrom, hto, hidentity, if_neg (Nat.not_lt.2 hsize), Turn.start_room, hy]
    simp [Turn.send, Turn.start, hs]
  have hmessage : handleMessage env s msg (.start room) =
      ⟨room, [.send e.ws (.envelope type x (msg.get "data"))], false⟩ := by
    rcases hhandshake with rfl | rfl
    · simp [handleMessage, isNull_of_type htype, htype, handleHandshake, hsender, hforward]
    · simp [handleMessage, isNull_of_type htype, htype, handleHandshake, hsender, hforward]
  simp [onMessage, hmessage, Turn.recover]

end Signal
end FolkAround
