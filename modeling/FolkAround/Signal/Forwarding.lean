import FolkAround.Signal.Room

/-!
# Forwarding

Offers, answers and relays travel through the room from one identity to another.
The history of accepted joins says who may speak as an identity: the socket that
joined under it last, as long as it joined under nothing else since.

* `lastSocket`, `lastIdentity` — the history read from its end.
* `envelopes` — the forwarded messages among what an event sent.
* `onMessage_envelopes` — one message forwards one envelope at most, in terms of
  the two maps.
* `Speaks` — the invariant that ties the maps to the history.
* `ReplacedSince`, `Displaced` — a socket another one took an identity from, and the
  invariant that its key is gone until it joins again.
* `forward_authentic` — the result, for every message of every run.
-/

namespace FolkAround
namespace Signal

variable {Ws : Type} [DecidableEq Ws]

/-! ## The history of joins -/

/-- The socket that joined last under an identity. -/
def lastSocket (joins : List (Ws × Identity)) (x : Identity) : Option Ws :=
  (joins.reverse.find? fun p => p.2 = x).map Prod.fst

/-- The identity under which a socket joined last. -/
def lastIdentity (joins : List (Ws × Identity)) (s : Ws) : Option Identity :=
  (joins.reverse.find? fun p => p.1 = s).map Prod.snd

omit [DecidableEq Ws] in
theorem lastSocket_concat (joins : List (Ws × Identity)) (s : Ws) (x y : Identity) :
    lastSocket (joins ++ [(s, x)]) y = if x = y then some s else lastSocket joins y := by
  by_cases h : x = y
  · simp [lastSocket, h]
  · simp [lastSocket, h]

theorem lastIdentity_concat (joins : List (Ws × Identity)) (s u : Ws) (x : Identity) :
    lastIdentity (joins ++ [(s, x)]) u = if s = u then some x else lastIdentity joins u := by
  by_cases h : s = u
  · simp [lastIdentity, h]
  · simp [lastIdentity, h]

/-! ## Envelopes -/

/-- A forwarded message and the socket it went to. -/
structure Envelope (Ws : Type) where
  socket : Ws
  type : String
  sender : Identity
  data : Option Value

/-- The envelope an output is, if it is one. -/
def Output.envelope? : Output Ws → Option (Envelope Ws)
  | .send s (.envelope type sender data) => some ⟨s, type, sender, data⟩
  | _ => none

/-- The forwarded messages among a list of outputs. -/
def envelopes (out : List (Output Ws)) : List (Envelope Ws) := out.filterMap Output.envelope?

omit [DecidableEq Ws] in
@[simp] theorem envelopes_nil : envelopes ([] : List (Output Ws)) = [] := rfl

omit [DecidableEq Ws] in
theorem envelopes_append (out out' : List (Output Ws)) :
    envelopes (out ++ out') = envelopes out ++ envelopes out' := List.filterMap_append

/-- The messages the server writes itself. -/
def Outbound.isOwn : Outbound → Bool
  | .envelope .. => false
  | _ => true

omit [DecidableEq Ws] in
/-- The message of the server itself is no envelope. -/
theorem envelopes_send {m : Outbound} (hm : m.isOwn = true) (env : Env Ws) (t : Turn Ws) (s : Ws) :
    envelopes (t.send env s m).out = envelopes t.out := by
  unfold Turn.send
  split
  · rfl
  · split
    · rfl
    · rw [envelopes_append]
      cases m with
      | envelope type sender data => exact absurd hm (by simp [Outbound.isOwn])
      | _ => exact List.append_nil _

omit [DecidableEq Ws] in
theorem envelopes_close (t : Turn Ws) (s : Ws) (code : Nat) (reason : String) :
    envelopes (t.close s code reason).out = envelopes t.out := by
  unfold Turn.close
  split
  · rfl
  · rw [envelopes_append]
    exact List.append_nil _

theorem envelopes_broadcast {m : Outbound} (hm : m.isOwn = true) (env : Env Ws) (t : Turn Ws)
    (x : Option Ws) : envelopes (t.broadcast env m x).out = envelopes t.out := by
  unfold Turn.broadcast
  generalize t.room.peers.entries = l
  induction l generalizing t with
  | nil => rfl
  | cons p l ih =>
      rw [List.foldl_cons, ih]
      split
      · rfl
      · exact envelopes_send hm ..

omit [DecidableEq Ws] in
theorem envelopes_recover (env : Env Ws) (s : Ws) (t : Turn Ws) :
    envelopes (t.recover env s).out = envelopes t.out := by
  unfold Turn.recover
  split
  · rw [envelopes_send rfl]
  · rfl

theorem envelopes_acceptJoin (env : Env Ws) (s : Ws) (x : Identity) (j : Int) (t : Turn Ws) :
    envelopes (acceptJoin env s x j t).out = envelopes t.out := by
  simp only [acceptJoin]
  rw [envelopes_broadcast rfl, envelopes_send rfl, Turn.modify_out, Turn.modify_out]

theorem envelopes_handleJoin (env : Env Ws) (s : Ws) (msg : Value) (t : Turn Ws) :
    envelopes (handleJoin env s msg t).out = envelopes t.out := by
  unfold handleJoin
  split
  · exact envelopes_send rfl ..
  · split
    · exact envelopes_acceptJoin ..
    · split
      · exact envelopes_acceptJoin ..
      · split
        · rw [envelopes_close, envelopes_send rfl]
        · rw [envelopes_acceptJoin, Turn.modify_out, envelopes_close]

theorem envelopes_onClose (env : Env Ws) (s : Ws) (room : SignalRoom Ws) :
    envelopes (onClose env s room).out = [] := by
  simp only [onClose, Turn.modify_out]
  by_cases h : ∃ x, Registered s x room
  · obtain ⟨x, hx⟩ := h
    rw [leave_of_registered env hx, envelopes_broadcast rfl, Turn.modify_out, Turn.start_out,
      envelopes_nil]
  · rw [leave_of_not_registered env (not_exists.1 h), Turn.start_out, envelopes_nil]

/-! ## What one message forwards -/

/-- The one envelope a message can lead to: the socket stands behind the identity it
names as its own, and the addressee is in `peers`. -/
structure Forwards (s : Ws) (msg : Value) (room : SignalRoom Ws) (e : Envelope Ws) : Prop where
  sender : msg.get "from" = some (.string e.sender.val)
  holds : room.sockets.get s = some e.sender
  data : e.data = msg.get "data"
  target : ∃ y entry, msg.get "to" = some (.string y.val) ∧ room.peers.get y = some entry ∧
    entry.ws = e.socket

theorem Forwards.congr {s : Ws} {msg : Value} {room room' : SignalRoom Ws} {e : Envelope Ws}
    (hp : room'.peers = room.peers) (hs : room'.sockets = room.sockets)
    (h : Forwards s msg room' e) : Forwards s msg room e :=
  ⟨h.sender, hs ▸ h.holds, h.data, hp ▸ h.target⟩

/-- A message on whose way nothing was forwarded, or the one envelope was. -/
def AtMostOne (s : Ws) (msg : Value) (type : String) (room : SignalRoom Ws) (t t' : Turn Ws) :
    Prop :=
  envelopes t'.out = envelopes t.out ∨
    ∃ e, envelopes t'.out = envelopes t.out ++ [e] ∧ e.type = type ∧ Forwards s msg room e

theorem isSender_cases (env : Env Ws) (s : Ws) (identity : Option Value) (t : Turn Ws) :
    (isSender env s identity t = (true, t) ∧
        ∃ x, t.room.sockets.get s = some x ∧ identity = some (.string x.val)) ∨
      ∃ t', isSender env s identity t = (false, t') ∧ envelopes t'.out = envelopes t.out := by
  unfold isSender
  cases hs : t.room.sockets.get s with
  | none => exact .inr ⟨_, rfl, envelopes_send rfl ..⟩
  | some x =>
      simp only
      by_cases h : identity.bind Value.asStr = some x.val
      · rw [if_pos h]
        obtain ⟨v, hv, hx⟩ := Option.bind_eq_some_iff.1 h
        rw [Value.asStr_eq_some_iff] at hx
        exact .inl ⟨rfl, x, rfl, by rw [hv, hx]⟩
      · rw [if_neg h]
        exact .inr ⟨_, rfl, envelopes_send rfl ..⟩

theorem forward_atMostOne (env : Env Ws) {s : Ws} (type : String) {msg : Value} {t : Turn Ws}
    {x : Identity} (hs : t.room.sockets.get s = some x)
    (hx : msg.get "from" = some (.string x.val)) :
    AtMostOne s msg type t.room t (forward env s type msg t) := by
  unfold forward
  split
  · next sender target hsender htarget =>
      have hsend : sender = x := by
        have h := isIdentity_eq_some hsender
        rw [hx] at h
        simp only [Option.some.injEq, Value.string.injEq] at h
        exact Subtype.ext h.symm
      subst hsend
      split
      · exact .inl (envelopes_send rfl ..)
      · cases hp : t.room.peers.get target with
        | none => exact .inl rfl
        | some entry =>
            simp only [Turn.send]
            split
            · exact .inl rfl
            · split
              · exact .inl rfl
              · refine .inr ⟨⟨entry.ws, type, sender, msg.get "data"⟩, ?_, rfl, ?_⟩
                · rw [envelopes_append]
                  rfl
                · exact ⟨hx, hs, rfl, target, entry, isIdentity_eq_some htarget, hp, rfl⟩
  · exact .inl (envelopes_send rfl ..)

theorem handleHandshake_atMostOne (env : Env Ws) (s : Ws) (type : String) (msg : Value)
    (t : Turn Ws) : AtMostOne s msg type t.room t (handleHandshake env s type msg t) := by
  unfold handleHandshake
  rcases isSender_cases env s (msg.get "from") t with ⟨h, x, hs, hx⟩ | ⟨t', h, hout⟩
  · rw [h]
    exact forward_atMostOne env type hs hx
  · rw [h]
    exact .inl hout

theorem handleRelay_atMostOne (env : Env Ws) (s : Ws) (msg : Value) (t : Turn Ws) :
    AtMostOne s msg "relay" t.room t (handleRelay env s msg t) := by
  unfold handleRelay
  rcases isSender_cases env s (msg.get "from") t with ⟨h, x, hs, hx⟩ | ⟨t', h, hout⟩
  · rw [h]
    have hmaps := checkRateLimit_maps env s t
    have hquiet : envelopes (checkRateLimit env s t).2.out = envelopes t.out := by
      simp only [checkRateLimit]
      split
      · rw [envelopes_send rfl, Turn.modify_out]
      · exact congrArg envelopes (Turn.modify_out ..)
    simp only
    split
    · next t' h' =>
        rw [h'] at hquiet
        exact .inl hquiet
    · next t' h' =>
        rw [h'] at hmaps hquiet
        rcases forward_atMostOne env "relay" (hmaps.2 ▸ hs) hx with
          hf | ⟨e, hf, htype, hfw⟩
        · exact .inl (hf.trans hquiet)
        · exact .inr ⟨e, by rw [hf, hquiet], htype, hfw.congr hmaps.1 hmaps.2⟩
  · rw [h]
    exact .inl hout

/-- **One envelope at most.**  What the handling of a message forwards, in terms of
the two maps. -/
theorem onMessage_envelopes (env : Env Ws) (s : Ws) (parsed : Option Value)
    (room : SignalRoom Ws) :
    envelopes (onMessage env s parsed room).out = [] ∨
      ∃ msg e, parsed = some msg ∧ envelopes (onMessage env s parsed room).out = [e] ∧
        msg.get "type" = some (.string e.type) ∧ e.type ∈ ["offer", "answer", "relay"] ∧
        Forwards s msg room e := by
  cases parsed with
  | none => exact .inl (by simp [onMessage, envelopes_recover])
  | some msg =>
      simp only [onMessage, envelopes_recover]
      have htype (type : String) (h : (msg.get "type").bind Value.asStr = some type) :
          msg.get "type" = some (.string type) := by
        obtain ⟨v, hv, hs⟩ := Option.bind_eq_some_iff.1 h
        rw [Value.asStr_eq_some_iff] at hs
        rw [hv, hs]
      have hone (type : String) (ht : (msg.get "type").bind Value.asStr = some type)
          (hmem : type ∈ ["offer", "answer", "relay"]) (t' : Turn Ws)
          (h : AtMostOne s msg type room (Turn.start room) t') :
          envelopes t'.out = [] ∨ ∃ msg' e, some msg = some msg' ∧ envelopes t'.out = [e] ∧
            msg'.get "type" = some (.string e.type) ∧ e.type ∈ ["offer", "answer", "relay"] ∧
            Forwards s msg' room e := by
        rcases h with h | ⟨e, h, rfl, hfw⟩
        · exact .inl h
        · exact .inr ⟨msg, e, rfl, h, htype _ ht, hmem, hfw⟩
      simp only [handleMessage]
      split
      · exact .inl rfl
      · split
        · exact .inl (envelopes_handleJoin ..)
        · split
          · next h => exact hone _ h (by simp) _ (handleHandshake_atMostOne ..)
          · split
            · next h => exact hone _ h (by simp) _ (handleHandshake_atMostOne ..)
            · split
              · next h => exact hone _ h (by simp) _ (handleRelay_atMostOne ..)
              · split
                · exact .inl (envelopes_send rfl ..)
                · exact .inl rfl

/-! ## Who may speak as an identity -/

/-- The maps and the history of joins: `peers` leads to the last socket that joined
under an identity, and a socket that is not closed speaks as the last identity it
joined under, and only as long as nobody else joined under it. -/
structure Speaks (w : World Ws) : Prop where
  peers : ∀ x e, w.room.peers.get x = some e → lastSocket w.joins x = some e.ws
  identity : ∀ s x, s ∉ w.closed → w.room.sockets.get s = some x →
    lastIdentity w.joins s = some x
  registered : ∀ s x, s ∉ w.closed → w.room.sockets.get s = some x → Registered s x w.room

theorem Speaks.socket {w : World Ws} (h : Speaks w) {s : Ws} {x : Identity} (hs : s ∉ w.closed)
    (hx : w.room.sockets.get s = some x) : lastSocket w.joins x = some s := by
  obtain ⟨-, e, he, rfl⟩ := h.registered s x hs hx
  exact h.peers x e he

theorem speaks_start : Speaks (World.start : World Ws) :=
  ⟨fun x e h => by simp [World.start, SignalRoom.new] at h,
    fun s x _ h => by simp [World.start, SignalRoom.new] at h,
    fun s x _ h => by simp [World.start, SignalRoom.new] at h⟩

/-- An accepted join keeps the invariant. -/
theorem Speaks.join {w : World Ws} (h : Speaks w) (s : Ws) (x : Identity) (j : Int)
    (out : List (Output Ws)) :
    Speaks { room := Signal.registered s x j w.room, closed := w.closed,
             joins := w.joins ++ [(s, x)], outbox := out } := by
  refine ⟨fun y e hy => ?_, fun u y hu hy => ?_, fun u y hu hy => ?_⟩
  · rw [get_peers_registered] at hy
    rw [lastSocket_concat]
    by_cases hxy : x = y
    · rw [if_pos hxy, Option.some.injEq] at hy
      rw [if_pos hxy, ← hy]
    · rw [if_neg hxy] at hy ⊢
      exact h.peers y e hy
  · rw [lastIdentity_concat]
    rcases sockets_registered_cases hy with ⟨rfl, rfl⟩ | ⟨hus, hold, -⟩
    · rw [if_pos rfl]
    · rw [if_neg (Ne.symm hus)]
      exact h.identity u y hu hold
  · refine ⟨hy, ?_⟩
    rw [get_peers_registered]
    rcases sockets_registered_cases hy with ⟨rfl, rfl⟩ | ⟨hus, hold, hr⟩
    · exact ⟨⟨u, j⟩, if_pos rfl, rfl⟩
    · have hreg := h.registered u y hu hold
      rw [if_neg (ne_of_not_replaced hus hr hreg)]
      exact hreg.2

/-- A close keeps the invariant, whether its announcement throws or not. -/
theorem Speaks.close {w : World Ws} (h : Speaks w) (s : Ws) (env : Env Ws)
    (out : List (Output Ws)) :
    Speaks { room := (onClose env s w.room).room, closed := s :: w.closed,
             joins := w.joins, outbox := out } := by
  have hpeers (y : Identity) (e : PeerEntry Ws)
      (hy : (onClose env s w.room).room.peers.get y = some e) : w.room.peers.get y = some e := by
    rcases onClose_maps env s w.room with ⟨x, -, hm, -⟩ | ⟨-, hm, -⟩
    · rw [hm, OrdMap.get_delete] at hy
      split at hy
      · exact absurd hy (by simp)
      · exact hy
    · rwa [hm] at hy
  refine ⟨fun y e hy => h.peers y e (hpeers y e hy), fun u y hu hy => ?_, fun u y hu hy => ?_⟩
  all_goals
    rw [List.mem_cons, not_or] at hu
    rw [get_sockets_onClose hu.1] at hy
  · exact h.identity u y hu.2 hy
  · exact (h.registered u y hu.2 hy).onClose hu.1 env

theorem speaks_step (w : World Ws) (a : Action Ws) (h : Speaks w) : Speaks (step w a) := by
  cases a with
  | message s env parsed =>
      simp only [step]
      split
      · exact h
      · have hmaps := onMessage_maps env s parsed w.room
        cases hj : joinAccepted env s parsed w.room with
        | none =>
            rw [hj] at hmaps
            simp only [Option.map_none, Option.toList_none, List.append_nil]
            exact ⟨fun x e hx => h.peers x e (hmaps.1 ▸ hx),
              fun u x hu hx => h.identity u x hu (hmaps.2 ▸ hx),
              fun u x hu hx => ⟨hx, hmaps.1.symm ▸ (h.registered u x hu (hmaps.2 ▸ hx)).2⟩⟩
        | some x =>
            rw [hj] at hmaps
            obtain ⟨j, hroom⟩ := hmaps
            simp only [Option.map_some, Option.toList_some, hroom]
            exact h.join s x j _
  | close s env =>
      simp only [step]
      split
      · exact h
      · exact h.close s env _

theorem speaks_run (as : List (Action Ws)) : Speaks (Runs.run step World.start as) :=
  Runs.run_invariant_of_forall step speaks_step speaks_start as

/-! ## Sockets that were replaced -/

/-- Another socket joined under an identity this one held, and this one has not joined
since, under that identity or any other. -/
def ReplacedSince (joins : List (Ws × Identity)) (s : Ws) : Prop :=
  ∃ pre s' x post, joins = pre ++ (s', x) :: post ∧ s' ≠ s ∧ lastSocket pre x = some s ∧
    ∀ y, (s, y) ∉ post

omit [DecidableEq Ws] in
/-- The last join of a history did the replacing, or came after it. -/
theorem ReplacedSince.concat_cases {joins : List (Ws × Identity)} {s s' : Ws} {x : Identity}
    (h : ReplacedSince (joins ++ [(s', x)]) s) :
    s' ≠ s ∧ (lastSocket joins x = some s ∨ ReplacedSince joins s) := by
  obtain ⟨pre, u, y, post, heq, hu, hlast, hpost⟩ := h
  rcases List.eq_nil_or_concat post with rfl | ⟨post, q, rfl⟩
  · obtain ⟨rfl, hq⟩ := List.append_inj' heq rfl
    obtain ⟨rfl, rfl⟩ := Prod.mk.inj (List.singleton_inj.1 hq)
    exact ⟨hu, .inl hlast⟩
  · have happ : joins ++ [(s', x)] = (pre ++ (u, y) :: post) ++ [q] := by
      rw [heq]
      simp
    obtain ⟨rfl, hq⟩ := List.append_inj' happ rfl
    obtain rfl := List.singleton_inj.1 hq
    refine ⟨fun hs => hpost x (by simp [hs]), .inr ⟨pre, u, y, post, rfl, hu, hlast, ?_⟩⟩
    exact fun z hz => hpost z (by simp [hz])

/-- The maps and the replacements: an open socket that joined last under an identity
stands in `peers` under it, and one that was replaced and has not joined since has no
key in `sockets`. -/
structure Displaced (w : World Ws) : Prop where
  kept : ∀ s x, s ∉ w.closed → lastSocket w.joins x = some s →
    ∃ e, w.room.peers.get x = some e ∧ e.ws = s
  dropped : ∀ s, s ∉ w.closed → ReplacedSince w.joins s → w.room.sockets.get s = none

theorem displaced_start : Displaced (World.start : World Ws) :=
  ⟨fun s x _ h => absurd h (by simp [World.start, lastSocket]),
    fun s _ _ => by simp [World.start, SignalRoom.new]⟩

/-- An accepted join keeps the invariant: the socket it replaces loses its key. -/
theorem Displaced.join {w : World Ws} (h : Displaced w) (s : Ws) (x : Identity) (j : Int)
    (out : List (Output Ws)) :
    Displaced { room := Signal.registered s x j w.room, closed := w.closed,
                joins := w.joins ++ [(s, x)], outbox := out } := by
  refine ⟨fun u y hu hy => ?_, fun u hu hr => ?_⟩
  · rw [lastSocket_concat] at hy
    rw [get_peers_registered]
    by_cases hxy : x = y
    · rw [if_pos hxy, Option.some.injEq] at hy
      exact ⟨⟨s, j⟩, if_pos hxy, hy⟩
    · rw [if_neg hxy] at hy ⊢
      exact h.kept u y hu hy
  · obtain ⟨hsu, hcases⟩ := hr.concat_cases
    rw [get_sockets_registered, if_neg hsu]
    rcases hcases with hlast | hbefore
    · obtain ⟨e, he, hws⟩ := h.kept u x hu hlast
      exact if_pos (replaced_eq_some_iff.2 ⟨e, he, hws, Ne.symm hsu⟩)
    · rw [h.dropped u hu hbefore, ite_self]

/-- A close takes nothing from the sockets that stay open. -/
theorem Displaced.close {w : World Ws} (h : Displaced w) (s : Ws) (env : Env Ws)
    (out : List (Output Ws)) :
    Displaced { room := (onClose env s w.room).room, closed := s :: w.closed,
                joins := w.joins, outbox := out } := by
  refine ⟨fun u y hu hy => ?_, fun u hu hr => ?_⟩
  all_goals rw [List.mem_cons, not_or] at hu
  · obtain ⟨e, he, hws⟩ := h.kept u y hu.2 hy
    refine ⟨e, ?_, hws⟩
    rcases onClose_maps env s w.room with ⟨x, ⟨-, e', he', hws'⟩, hm, -⟩ | ⟨-, hm, -⟩
    · -- what is deleted is the closed socket's own entry
      rw [hm, OrdMap.get_delete, if_neg, he]
      rintro rfl
      rw [he, Option.some.injEq] at he'
      exact hu.1 (hws ▸ he' ▸ hws')
    · rw [hm, he]
  · rw [get_sockets_onClose hu.1]
    exact h.dropped u hu.2 hr

theorem displaced_step (w : World Ws) (a : Action Ws) (h : Displaced w) :
    Displaced (step w a) := by
  cases a with
  | message s env parsed =>
      simp only [step]
      split
      · exact h
      · have hmaps := onMessage_maps env s parsed w.room
        cases hj : joinAccepted env s parsed w.room with
        | none =>
            rw [hj] at hmaps
            simp only [Option.map_none, Option.toList_none, List.append_nil]
            exact ⟨fun u x hu hx => hmaps.1 ▸ h.kept u x hu hx,
              fun u hu hr => hmaps.2 ▸ h.dropped u hu hr⟩
        | some x =>
            rw [hj] at hmaps
            obtain ⟨j, hroom⟩ := hmaps
            simp only [Option.map_some, Option.toList_some, hroom]
            exact h.join s x j _
  | close s env =>
      simp only [step]
      split
      · exact h
      · exact h.close s env _

theorem displaced_run (as : List (Action Ws)) : Displaced (Runs.run step World.start as) :=
  Runs.run_invariant_of_forall step displaced_step displaced_start as

/-! ## The result -/

/-- The envelopes sent as a result of one event. -/
def forwarded (w : World Ws) (a : Action Ws) : List (Envelope Ws) :=
  envelopes ((step w a).outbox.drop w.outbox.length)

theorem forwarded_message {w : World Ws} {s : Ws} (hs : s ∉ w.closed) (env : Env Ws)
    (parsed : Option Value) :
    forwarded w (.message s env parsed) = envelopes (onMessage env s parsed w.room).out := by
  simp [forwarded, step, hs]

theorem forwarded_of_closed {w : World Ws} {s : Ws} (hs : s ∈ w.closed) (env : Env Ws)
    (parsed : Option Value) : forwarded w (.message s env parsed) = [] := by
  simp [forwarded, step, hs]

theorem forwarded_close (w : World Ws) (s : Ws) (env : Env Ws) :
    forwarded w (.close s env) = [] := by
  by_cases hs : s ∈ w.closed
  · simp [forwarded, step, hs]
  · simp [forwarded, step, hs, envelopes_onClose]

/-- What the claimed origin and destination of an envelope are worth: its sender is
the identity under which the socket joined last and nobody did since, and it goes to
the socket that joined last under the addressee's. -/
structure Authentic (w : World Ws) (s : Ws) (msg : Value) (e : Envelope Ws) : Prop where
  joined : lastIdentity w.joins s = some e.sender
  notReplaced : lastSocket w.joins e.sender = some s
  sender : msg.get "from" = some (.string e.sender.val)
  type : msg.get "type" = some (.string e.type)
  data : e.data = msg.get "data"
  target : ∃ y : Identity, msg.get "to" = some (.string y.val) ∧
    lastSocket w.joins y = some e.socket

theorem forwarded_cases {w : World Ws} (h : Speaks w) (s : Ws) (env : Env Ws)
    (parsed : Option Value) :
    forwarded w (.message s env parsed) = [] ∨
      ∃ msg e, parsed = some msg ∧ forwarded w (.message s env parsed) = [e] ∧
        e.type ∈ ["offer", "answer", "relay"] ∧ Authentic w s msg e := by
  by_cases hs : s ∈ w.closed
  · exact .inl (forwarded_of_closed hs env parsed)
  · rw [forwarded_message hs]
    rcases onMessage_envelopes env s parsed w.room with h0 | ⟨msg, e, hp, hout, htype, hmem, hfw⟩
    · exact .inl h0
    · refine .inr ⟨msg, e, hp, hout, hmem, h.identity s _ hs hfw.holds, h.socket hs hfw.holds,
        hfw.sender, htype, hfw.data, ?_⟩
      obtain ⟨y, entry, hto, hget, hws⟩ := hfw.target
      exact ⟨y, hto, hws ▸ h.peers y entry hget⟩

/-- A replaced socket has nothing forwarded: it has no key in `sockets`. -/
theorem forwarded_of_replaced {w : World Ws} (h : Displaced w) {s : Ws}
    (hr : ReplacedSince w.joins s) (env : Env Ws) (parsed : Option Value) :
    forwarded w (.message s env parsed) = [] := by
  by_cases hs : s ∈ w.closed
  · exact forwarded_of_closed hs env parsed
  · rw [forwarded_message hs]
    rcases onMessage_envelopes env s parsed w.room with h0 | ⟨msg, e, -, -, -, -, hfw⟩
    · exact h0
    · have hholds := hfw.holds
      rw [h.dropped s hs hr] at hholds
      exact absurd hholds (by simp)

/-- A message of the socket could be forwarded under the identity. -/
def CanSpeak (w : World Ws) (s : Ws) (x : Identity) : Prop :=
  ∃ env parsed, ∃ e ∈ forwarded w (.message s env parsed), e.sender = x

/-- **Forwarding is authentic and point to point.**  In every state a run can reach,
a message forwards one envelope at most, and an authentic one; one socket at most can
speak as an identity; a socket that lost the identity it joined under last has nothing
forwarded, and neither has one that lost any identity since its last join. -/
theorem forward_authentic (as : List (Action Ws)) :
    let w := Runs.run step World.start as
    (∀ s env parsed, (forwarded w (.message s env parsed)).length ≤ 1 ∧
      ∀ e ∈ forwarded w (.message s env parsed), e.type ∈ ["offer", "answer", "relay"] ∧
        ∃ msg, parsed = some msg ∧ Authentic w s msg e) ∧
    (∀ s env, forwarded w (.close s env) = []) ∧
    (∀ s s' x, CanSpeak w s x → CanSpeak w s' x → s = s') ∧
    (∀ s x, lastIdentity w.joins s = some x → lastSocket w.joins x ≠ some s →
      ∀ env parsed, forwarded w (.message s env parsed) = []) ∧
    ∀ s, ReplacedSince w.joins s →
      ∀ env parsed, forwarded w (.message s env parsed) = [] := by
  intro w
  have hw : Speaks w := speaks_run as
  have hspeak (s : Ws) (x : Identity) (h : CanSpeak w s x) : lastSocket w.joins x = some s := by
    obtain ⟨env, parsed, e, he, rfl⟩ := h
    rcases forwarded_cases hw s env parsed with h0 | ⟨msg, e', -, h1, -, ha⟩
    · rw [h0] at he
      exact absurd he (by simp)
    · rw [h1, List.mem_singleton] at he
      rw [he]
      exact ha.notReplaced
  refine ⟨fun s env parsed => ?_, fun s env => forwarded_close w s env, fun s s' x hs hs' => ?_,
    fun s x hx hne env parsed => ?_,
    fun s hr env parsed => forwarded_of_replaced (displaced_run as) hr env parsed⟩
  · rcases forwarded_cases hw s env parsed with h0 | ⟨msg, e, hp, h1, hmem, ha⟩
    · rw [h0]
      exact ⟨Nat.zero_le 1, fun e he => absurd he (by simp)⟩
    · rw [h1]
      refine ⟨le_refl 1, fun e' he => ?_⟩
      rw [List.mem_singleton.1 he]
      exact ⟨hmem, msg, hp, ha⟩
  · have h := hspeak s x hs
    rw [hspeak s' x hs'] at h
    exact (Option.some.inj h).symm
  · rcases forwarded_cases hw s env parsed with h0 | ⟨msg, e, -, -, -, ha⟩
    · exact h0
    · have hj := ha.joined
      rw [hx, Option.some.injEq] at hj
      exact absurd (hj ▸ ha.notReplaced) hne

end Signal
end FolkAround
