import Mathlib.Data.Finset.Basic
import FolkAround.Signal.Room

/-!
# The roster a client keeps

A client learns who is in the room from three messages: `joined` carries the others
at that moment, `peer_joined` and `peer_left` report changes.  Folding over all it
heard, it arrives at a set of identities.

* `view` — that set.
* `onMessage_plain`, `onMessage_join` — what a message makes the sockets hear: nothing
  that concerns the roster, or one `joined` and the news about it.
* `Agrees` — the invariant: a socket that holds an identity is registered, and its
  view is the room's without itself.
* `roster_agreement` — the result, for every run in which no send fails.
-/

namespace FolkAround
namespace Signal

variable {Ws : Type} [DecidableEq Ws]

/-! ## What a client computes -/

/-- The message an output brings to a socket. -/
def heard (s : Ws) : Output Ws → Option Outbound
  | .send u m => if u = s then some m else none
  | .close .. => none

/-- All messages a socket heard, in order. -/
def hears (s : Ws) (out : List (Output Ws)) : List Outbound := out.filterMap (heard s)

/-- A client hears one message. -/
def viewStep (v : Option (Finset Identity)) : Outbound → Option (Finset Identity)
  | .joined _ peers => some peers.toFinset
  | .peerJoined x => v.map (insert x)
  | .peerLeft x => v.map fun set => set.erase x
  | _ => v

/-- The roster of a client: the list of the last `joined`, with every later change. -/
def view (s : Ws) (out : List (Output Ws)) : Option (Finset Identity) :=
  (hears s out).foldl viewStep none

theorem hears_append (s : Ws) (out out' : List (Output Ws)) :
    hears s (out ++ out') = hears s out ++ hears s out' := List.filterMap_append

theorem view_append (s : Ws) (out out' : List (Output Ws)) :
    view s (out ++ out') = (hears s out').foldl viewStep (view s out) := by
  rw [view, hears_append, List.foldl_append, ← view]

/-! ## Messages that leave the roster alone -/

/-- An answer to one socket, or a forwarded message. -/
def Outbound.isPlain : Outbound → Bool
  | .error _ => true
  | .envelope .. => true
  | _ => false

/-- No message about the roster is among the outputs. -/
def Plain (out : List (Output Ws)) : Prop :=
  ∀ s, ∀ m ∈ hears s out, m.isPlain = true

theorem viewStep_of_plain {m : Outbound} (h : m.isPlain = true) (v : Option (Finset Identity)) :
    viewStep v m = v := by
  cases m with
  | error _ => rfl
  | envelope _ _ _ => rfl
  | _ => exact absurd h (by simp [Outbound.isPlain])

theorem Plain.view {out : List (Output Ws)} (h : Plain out) (s : Ws)
    (v : Option (Finset Identity)) : (hears s out).foldl viewStep v = v := by
  have hs := h s
  generalize hears s out = l at hs
  induction l with
  | nil => rfl
  | cons m l ih =>
      rw [List.foldl_cons, viewStep_of_plain (hs m (List.mem_cons_self ..))]
      exact ih fun m' hm' => hs m' (List.mem_cons_of_mem _ hm')

theorem plain_nil : Plain ([] : List (Output Ws)) := fun _ m hm => absurd hm (by simp [hears])

theorem plain_start (room : SignalRoom Ws) : Plain (Turn.start room).out := plain_nil

theorem plain_append {out out' : List (Output Ws)} (h : Plain out) (h' : Plain out') :
    Plain (out ++ out') := by
  intro s m hm
  rw [hears_append, List.mem_append] at hm
  rcases hm with hm | hm
  · exact h s m hm
  · exact h' s m hm

theorem plain_send {m : Outbound} (hm : m.isPlain = true) {t : Turn Ws} (h : Plain t.out)
    (env : Env Ws) (s : Ws) : Plain (t.send env s m).out := by
  unfold Turn.send
  split
  · exact h
  · split
    · exact h
    · refine plain_append h fun u m' hm' => ?_
      simp only [hears, List.filterMap_cons, heard, List.filterMap_nil] at hm'
      by_cases hu : s = u
      · simp only [hu, if_true, List.mem_singleton] at hm'
        exact hm' ▸ hm
      · simp [hu] at hm'

theorem plain_close {t : Turn Ws} (h : Plain t.out) (s : Ws) (code : Nat) (reason : String) :
    Plain (t.close s code reason).out := by
  unfold Turn.close
  split
  · exact h
  · exact plain_append h fun u m hm => absurd hm (by simp [hears, heard])

theorem plain_recover {t : Turn Ws} (h : Plain t.out) (env : Env Ws) (s : Ws) :
    Plain (t.recover env s).out := by
  unfold Turn.recover
  split
  · exact plain_send (t := { t with thrown := false }) rfl h env s
  · exact h

theorem plain_isSender {t : Turn Ws} (h : Plain t.out) (env : Env Ws) (s : Ws)
    (identity : Option Value) : Plain (isSender env s identity t).2.out := by
  unfold isSender
  split
  · exact plain_send rfl h env s
  · split
    · exact h
    · exact plain_send rfl h env s

theorem plain_forward {t : Turn Ws} (h : Plain t.out) (env : Env Ws) (s : Ws) (type : String)
    (msg : Value) : Plain (forward env s type msg t).out := by
  unfold forward
  split
  · split
    · exact plain_send rfl h env s
    · split
      · exact plain_send rfl h env _
      · exact h
  · exact plain_send rfl h env s

theorem plain_handleHandshake {t : Turn Ws} (h : Plain t.out) (env : Env Ws) (s : Ws)
    (type : String) (msg : Value) : Plain (handleHandshake env s type msg t).out := by
  have hs := plain_isSender h env s (msg.get "from")
  unfold handleHandshake
  split
  · next hc => rw [hc] at hs; exact hs
  · next hc => rw [hc] at hs; exact plain_forward hs env s type msg

theorem plain_handleRelay {t : Turn Ws} (h : Plain t.out) (env : Env Ws) (s : Ws) (msg : Value) :
    Plain (handleRelay env s msg t).out := by
  have hs := plain_isSender h env s (msg.get "from")
  unfold handleRelay
  split
  · next hc => rw [hc] at hs; exact hs
  · next u hc =>
      rw [hc] at hs
      have hr : Plain (checkRateLimit env s u).2.out := by
        simp only [checkRateLimit]
        split
        · exact plain_send rfl ((Turn.modify_out u _).symm ▸ hs) env s
        · exact (Turn.modify_out u _).symm ▸ hs
      split
      · next hc' => rw [hc'] at hr; exact hr
      · next hc' => rw [hc'] at hr; exact plain_forward hr env s "relay" msg

theorem plain_handleJoin {env : Env Ws} {s : Ws} {msg : Value} {room : SignalRoom Ws}
    (hj : (msg.get "type").bind Value.asStr = some "join")
    (h : joinAccepted env s (some msg) room = none) :
    Plain (handleJoin env s msg (.start room)).out := by
  obtain ⟨m, h | ⟨reason, h⟩⟩ := handleJoin_rejected hj h
  · rw [h]
    exact plain_send rfl (plain_start room) env s
  · rw [h]
    exact plain_close (plain_send rfl (plain_start room) env s) s 1008 reason

/-- **Not a join.**  A message that is no accepted join is no news to anyone. -/
theorem onMessage_plain {env : Env Ws} {s : Ws} {parsed : Option Value} {room : SignalRoom Ws}
    (h : joinAccepted env s parsed room = none) : Plain (onMessage env s parsed room).out := by
  cases parsed with
  | none => exact plain_recover (t := (Turn.start room).throw) (plain_start room) env s
  | some msg =>
      refine plain_recover ?_ env s
      simp only [handleMessage]
      split
      · exact plain_nil
      · split
        · next hj => exact plain_handleJoin hj h
        · split
          · exact plain_handleHandshake (plain_start room) env s _ msg
          · split
            · exact plain_handleHandshake (plain_start room) env s _ msg
            · split
              · exact plain_handleRelay (plain_start room) env s msg
              · split
                · exact plain_send rfl (plain_start room) env s
                · exact plain_nil

/-! ## News of a change -/

/-- A turn in which no send fails. -/
def Sound (env : Env Ws) : Prop := ∀ s, env.sendFails s = false

omit [DecidableEq Ws] in
theorem send_of_sound {env : Env Ws} (henv : Sound env) {t : Turn Ws} (ht : t.thrown = false)
    (s : Ws) (m : Outbound) : t.send env s m = { t with out := t.out ++ [.send s m] } := by
  simp [Turn.send, ht, henv s]

/-- Who hears a broadcast: every socket in `peers` but the excluded one, once for each
of its entries. -/
theorem hears_broadcast {env : Env Ws} (henv : Sound env) {t : Turn Ws} (ht : t.thrown = false)
    (m : Outbound) (s u : Ws) :
    ∃ n, hears u (t.broadcast env m (some s)).out = hears u t.out ++ List.replicate n m ∧
      (n = 0 ↔ u = s ∨ ∀ y e, t.room.peers.get y = some e → e.ws ≠ u) := by
  have hlist (l : List (Identity × PeerEntry Ws)) (t : Turn Ws) (ht : t.thrown = false) :
      ∃ n, hears u (l.foldl (fun t p =>
          if some p.2.ws = some s then t else t.send env p.2.ws m) t).out =
        hears u t.out ++ List.replicate n m ∧ (n = 0 ↔ u = s ∨ ∀ p ∈ l, p.2.ws ≠ u) := by
    induction l generalizing t with
    | nil => exact ⟨0, by simp⟩
    | cons p l ih =>
        rw [List.foldl_cons]
        by_cases hps : p.2.ws = s
        · obtain ⟨n, hn, hz⟩ := ih t ht
          refine ⟨n, by rw [if_pos (by rw [hps]), hn], ?_⟩
          rw [hz, List.forall_mem_cons, hps]
          by_cases hus : u = s
          · simp [hus]
          · simp [hus, Ne.symm hus]
        · rw [if_neg (by simpa using hps), send_of_sound henv ht]
          obtain ⟨n, hn, hz⟩ := ih { t with out := t.out ++ [.send p.2.ws m] } ht
          rw [hn, hears_append, List.append_assoc]
          by_cases hpu : p.2.ws = u
          · refine ⟨n + 1, by simp [hears, heard, hpu, List.replicate_succ], ?_⟩
            simp only [Nat.add_one_ne_zero, List.forall_mem_cons, hpu, ne_eq, not_true,
              false_and, or_false, false_iff]
            exact fun hc => hps (hpu.trans hc)
          · refine ⟨n, by simp [hears, heard, hpu], ?_⟩
            rw [hz, List.forall_mem_cons]
            simp [hpu]
  obtain ⟨n, hn, hz⟩ := hlist t.room.peers.entries t ht
  refine ⟨n, hn, hz.trans (or_congr_right ⟨fun h y e he => ?_, fun h p hp => ?_⟩)⟩
  · exact h (y, e) (OrdMap.mem_entries_iff.2 he)
  · exact h p.1 p.2 (OrdMap.mem_entries_iff.1 hp)

/-- Hearing the same news more than once is hearing it once. -/
theorem foldl_viewStep_replicate {m : Outbound}
    (hm : ∀ v, viewStep (viewStep v m) m = viewStep v m) {n : Nat} (hn : n ≠ 0)
    (v : Option (Finset Identity)) : (List.replicate n m).foldl viewStep v = viewStep v m := by
  induction n generalizing v with
  | zero => exact absurd rfl hn
  | succ n ih =>
      rw [List.replicate_succ, List.foldl_cons]
      by_cases hz : n = 0
      · rw [hz]
        rfl
      · rw [ih hz, hm]

theorem viewStep_peerJoined_twice (x : Identity) (v : Option (Finset Identity)) :
    viewStep (viewStep v (.peerJoined x)) (.peerJoined x) = viewStep v (.peerJoined x) := by
  cases v <;> simp [viewStep]

theorem viewStep_peerLeft_twice (x : Identity) (v : Option (Finset Identity)) :
    viewStep (viewStep v (.peerLeft x)) (.peerLeft x) = viewStep v (.peerLeft x) := by
  cases v <;> simp [viewStep]

/-- The identities in a room. -/
def present (room : SignalRoom Ws) : Finset Identity := room.peers.keys.toFinset

omit [DecidableEq Ws] in
theorem mem_present {room : SignalRoom Ws} {y : Identity} :
    y ∈ present room ↔ ∃ e, room.peers.get y = some e := by
  rw [present, List.mem_toFinset, OrdMap.mem_keys_iff]

theorem present_registered (s : Ws) (x : Identity) (j : Int) (room : SignalRoom Ws) :
    present (registered s x j room) = insert x (present room) := by
  apply Finset.ext
  intro y
  rw [Finset.mem_insert, mem_present, mem_present, get_peers_registered]
  by_cases h : x = y
  · simp [h]
  · simp [h, Ne.symm h]

omit [DecidableEq Ws] in
/-- The others, as `joined` lists them. -/
theorem toFinset_others (room : SignalRoom Ws) (x : Identity) :
    (room.peers.keys.filter fun id => id ≠ x).toFinset = (present room).erase x := by
  apply Finset.ext
  intro y
  simp [present, and_comm]

/-- What the answer to a join and its announcement make the sockets hear: the joining
socket the snapshot, and every other one in `peers` the news. -/
theorem announce_hears {env : Env Ws} (henv : Sound env) {t : Turn Ws} (ht : t.thrown = false)
    (s : Ws) (x : Identity) (v : Option (Finset Identity)) :
    let t' := (t.send env s (.joined "" (t.room.peers.keys.filter fun id => id ≠ x))).broadcast
      env (.peerJoined x) (some s)
    (hears s t'.out).foldl viewStep v = some ((present t.room).erase x) ∧
      ∀ u y e, u ≠ s → t.room.peers.get y = some e → e.ws = u →
        (hears u t'.out).foldl viewStep v =
          viewStep ((hears u t.out).foldl viewStep v) (.peerJoined x) := by
  intro t'
  have ht' : t' = ({ t with out := t.out ++
      [.send s (.joined "" (t.room.peers.keys.filter fun id => id ≠ x))] } : Turn Ws).broadcast
        env (.peerJoined x) (some s) := by
    simp only [t', send_of_sound henv ht]
  refine ⟨?_, fun u y e hus hy hws => ?_⟩
  · obtain ⟨n, hn, hz⟩ := hears_broadcast (t := { t with out := t.out ++
      [.send s (.joined "" (t.room.peers.keys.filter fun id => id ≠ x))] }) henv ht
        (.peerJoined x) s s
    have hn0 : n = 0 := hz.2 (.inl rfl)
    rw [ht', hn, hn0, List.replicate_zero, List.append_nil, hears_append, List.foldl_append,
      ← toFinset_others]
    simp [hears, heard, viewStep]
  · obtain ⟨n, hn, hz⟩ := hears_broadcast (t := { t with out := t.out ++
      [.send s (.joined "" (t.room.peers.keys.filter fun id => id ≠ x))] }) henv ht
        (.peerJoined x) s u
    have hn0 : n ≠ 0 := fun hc => (hz.1 hc).elim hus fun h => h y e hy hws
    rw [ht', hn, hears_append, List.foldl_append,
      foldl_viewStep_replicate (viewStep_peerJoined_twice x) hn0, List.foldl_append]
    simp [hears, heard, Ne.symm hus]

theorem acceptJoin_thrown {env : Env Ws} (henv : Sound env) {t : Turn Ws} (ht : t.thrown = false)
    (s : Ws) (x : Identity) (j : Int) : (acceptJoin env s x j t).thrown = false := by
  simp only [acceptJoin]
  rw [Turn.broadcast_thrown, Turn.send_thrown, Turn.modify_thrown, Turn.modify_thrown, ht, henv s]
  simp [henv _]

/-- Nobody hears anything before a join is accepted. -/
theorem hears_beforeJoin (s u : Ws) (x : Identity) (room : SignalRoom Ws) :
    hears u (beforeJoin s x room).out = [] := by
  unfold beforeJoin
  split
  · rfl
  · simp [Turn.close, hears, heard]

/-- **An accepted join.**  The joining socket sees the others; everyone else who is
registered adds it. -/
theorem onMessage_join {env : Env Ws} (henv : Sound env) {s : Ws} {parsed : Option Value}
    {room : SignalRoom Ws} {x : Identity} (hj : joinAccepted env s parsed room = some x)
    (v : Option (Finset Identity)) :
    let t := onMessage env s parsed room
    (hears s t.out).foldl viewStep v = some ((present t.room).erase x) ∧
      ∀ u y e, u ≠ s → t.room.peers.get y = some e → e.ws = u →
        (hears u t.out).foldl viewStep v = viewStep v (.peerJoined x) := by
  cases parsed with
  | none => exact absurd hj (by simp [joinAccepted])
  | some msg =>
      obtain ⟨j, h⟩ := handleJoin_accepted hj
      have hthrown := acceptJoin_thrown henv (beforeJoin_thrown s x room) s x j
      simp only [onMessage, handleMessage_join (joinAccepted_type hj), h, Turn.recover, hthrown,
        Bool.false_eq_true, if_false]
      have hann := announce_hears henv (t :=
        ((beforeJoin s x room).modify fun room =>
            { room with peers := room.peers.set x ⟨s, j⟩ }).modify
          fun room => { room with sockets := room.sockets.set s x })
        (by rw [Turn.modify_thrown, Turn.modify_thrown, beforeJoin_thrown]) s x v
      simp only [Turn.modify_out, hears_beforeJoin, List.foldl_nil] at hann
      simp only [acceptJoin, Turn.broadcast_room, Turn.send_room]
      exact hann

/-- **A close.**  Everyone else who is registered removes the identity. -/
theorem onClose_hears {env : Env Ws} (henv : Sound env) {s : Ws} {room : SignalRoom Ws}
    {x : Identity} (hx : Registered s x room) {u : Ws} (hus : u ≠ s) {y : Identity}
    (hy : Registered u y room) (v : Option (Finset Identity)) :
    (hears u (onClose env s room).out).foldl viewStep v = viewStep v (.peerLeft x) := by
  have hxy : x ≠ y := by
    rintro rfl
    obtain ⟨-, e, he, hws⟩ := hx
    obtain ⟨-, e', he', hws'⟩ := hy
    rw [he] at he'
    exact hus (hws' ▸ Option.some.inj he' ▸ hws)
  simp only [onClose, Turn.modify_out]
  rw [leave_of_registered env hx]
  obtain ⟨n, hn, hz⟩ := hears_broadcast henv (t := (Turn.start room).modify fun room =>
    { room with peers := room.peers.delete x }) (by rw [Turn.modify_thrown, Turn.start_thrown])
    (.peerLeft x) s u
  have hn0 : n ≠ 0 := by
    intro hc
    obtain ⟨-, e, he, hws⟩ := hy
    rcases hz.1 hc with h | h
    · exact hus h
    · refine h y e ?_ hws
      rw [Turn.modify_room (Turn.start_thrown room), Turn.start_room, OrdMap.get_delete_of_ne hxy,
        he]
  rw [hn, Turn.modify_out, Turn.start_out, List.foldl_append,
    foldl_viewStep_replicate (viewStep_peerLeft_twice x) hn0]
  rfl

/-! ## The invariant -/

/-- A socket that holds an identity is registered under it, and its roster is the
room's without itself. -/
def Agrees (w : World Ws) : Prop :=
  ∀ s x, w.room.sockets.get s = some x →
    Registered s x w.room ∧ view s w.outbox = some ((present w.room).erase x)

/-- Nothing that is sent in the event fails. -/
def NoFailure : Action Ws → Prop
  | .message _ env _ => Sound env
  | .close _ env => Sound env

theorem agrees_start : Agrees (World.start : World Ws) := fun s x h => by
  simp [World.start, SignalRoom.new] at h

theorem Agrees.message {w : World Ws} (h : Agrees w) {env : Env Ws} (henv : Sound env) (s : Ws)
    (parsed : Option Value) (joins : List (Ws × Identity)) :
    Agrees { room := (onMessage env s parsed w.room).room, closed := w.closed, joins := joins,
             outbox := w.outbox ++ (onMessage env s parsed w.room).out } := by
  intro u y hy
  have hmaps := onMessage_maps env s parsed w.room
  cases hj : joinAccepted env s parsed w.room with
  | none =>
      rw [hj] at hmaps
      obtain ⟨hp, hs⟩ := hmaps
      obtain ⟨hreg, hview⟩ := h u y (hs ▸ hy)
      refine ⟨⟨hy, hp.symm ▸ hreg.2⟩, ?_⟩
      rw [view_append, (onMessage_plain hj).view, hview]
      simp only [present, hp]
  | some x =>
      rw [hj] at hmaps
      obtain ⟨j, hroom⟩ := hmaps
      obtain ⟨hself, hothers⟩ := onMessage_join henv hj (view u w.outbox)
      simp only [hroom] at hy hself hothers
      have hpeers := get_peers_registered s x y j w.room
      rcases sockets_registered_cases hy with ⟨rfl, rfl⟩ | ⟨hus, hold, hr⟩
      · refine ⟨⟨?_, ⟨u, j⟩, ?_, rfl⟩, ?_⟩
        · rw [hroom, hy]
        · rw [hroom, hpeers, if_pos rfl]
        · rw [view_append, hself, hroom]
      · obtain ⟨hreg, hview⟩ := h u y hold
        have hxy := ne_of_not_replaced hus hr hreg
        obtain ⟨-, e, he, hws⟩ := hreg
        rw [if_neg hxy, he] at hpeers
        refine ⟨⟨?_, e, ?_, hws⟩, ?_⟩
        · rw [hroom, hy]
        · rw [hroom, hpeers]
        · rw [view_append, hothers u y e hus hpeers hws, hview, hroom, present_registered,
            Finset.erase_insert_of_ne hxy]
          rfl

theorem Agrees.close {w : World Ws} (h : Agrees w) {env : Env Ws} (henv : Sound env) (s : Ws) :
    Agrees { w with room := (onClose env s w.room).room, closed := s :: w.closed,
                    outbox := w.outbox ++ (onClose env s w.room).out } := by
  intro u y hy
  have hok : OthersReachable env s w.room := fun _ e _ _ => henv e.ws
  -- the closed socket holds nothing any more
  have hus : u ≠ s := by
    rintro rfl
    have hnone : (onClose env u w.room).room.sockets.get u = none := by
      rcases onClose_maps env u w.room with ⟨x, -, -, ⟨-, hm⟩ | ⟨hc, -⟩⟩ | ⟨-, -, hm⟩
      · rw [hm, OrdMap.get_delete_self]
      · exact absurd hok hc
      · rw [hm, OrdMap.get_delete_self]
    rw [hnone] at hy
    exact absurd hy (by simp)
  rw [get_sockets_onClose hus] at hy
  obtain ⟨hreg, hview⟩ := h u y hy
  refine ⟨hreg.onClose hus env, ?_⟩
  rw [view_append]
  rcases onClose_maps env s w.room with ⟨x, hx, hp, -⟩ | ⟨hnone, hp, -⟩
  · rw [onClose_hears henv hx hus hreg, hview]
    have hpresent : present (onClose env s w.room).room = (present w.room).erase x := by
      apply Finset.ext
      intro z
      rw [Finset.mem_erase, mem_present, mem_present, hp]
      by_cases hxz : x = z
      · simp [hxz]
      · simp [OrdMap.get_delete_of_ne hxz, Ne.symm hxz]
    rw [hpresent, Finset.erase_right_comm]
    rfl
  · have hout : (onClose env s w.room).out = [] := by
      simp only [onClose, Turn.modify_out]
      rw [leave_of_not_registered env hnone, Turn.start_out]
    rw [hout, hview]
    simp [hears, present, hp]

theorem agrees_step (w : World Ws) (a : Action Ws) (h : Agrees w) (ha : NoFailure a) :
    Agrees (step w a) := by
  cases a with
  | message s env parsed =>
      simp only [step]
      split
      · exact h
      · exact h.message ha s parsed _
  | close s env =>
      simp only [step]
      split
      · exact h
      · exact h.close ha s

/-- **Roster agreement.**  After every run in which no send fails, a socket that holds
an identity has heard enough to know who else is in the room. -/
theorem roster_agreement (as : List (Action Ws)) (hok : ∀ a ∈ as, NoFailure a) :
    ∀ bs, bs <+: as → ∀ s x,
      (Runs.run step World.start bs).room.sockets.get s = some x →
        view s (Runs.run step World.start bs).outbox =
          some ((Runs.run step World.start bs).room.peers.keys.toFinset.erase x) := by
  intro bs hbs s x hx
  have hmeet : Runs.StepsMeet step (fun _ a => NoFailure a) (World.start : World Ws) bs :=
    Runs.stepsMeet_of_mem step (fun a ha _ => hok a (hbs.subset ha)) _
  have h : Agrees (Runs.run step World.start bs) :=
    Runs.run_invariant step agrees_step agrees_start hmeet
  exact (h s x hx).2

theorem roster_agreement_two :
    let as : List (Action Nat) := [Sample.join 1 Sample.first, Sample.join 2 Sample.second]
    view 1 (Runs.run step World.start as).outbox =
      some ((Runs.run step World.start as).room.peers.keys.toFinset.erase Sample.first) := by
  intro as
  have hok : ∀ a ∈ as, NoFailure a := by
    intro a ha
    rcases List.mem_cons.1 ha with rfl | ha
    · exact fun _ => rfl
    · rw [List.mem_singleton.1 ha]
      exact fun _ => rfl
  exact roster_agreement as hok as (List.prefix_refl as) 1 Sample.first (by decide +kernel)

end Signal
end FolkAround
