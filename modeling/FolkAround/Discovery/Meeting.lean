import FolkAround.Discovery.Net

/-!
# Every two daemons in a room meet

A daemon that joins is told who is there and makes everyone an offer; whoever gets an
offer derives a key and answers, and the answer makes the first one derive it too.

* `Meeting` — how far one daemon has come with another one: the invitation, the offer or
  the answer is on its way, or both have their session.
* `Meeting.serve`, `Meeting.receive` — a step leads a meeting on or leaves it where it
  is, as long as both stay in the room.
* `Met`, `met_run` — every two daemons in the room are meeting, one way or the other.
* `discovery_complete` — where nothing waits on the connections of two of them, they
  have met: each holds a session with the other, under the same key.
-/

namespace FolkAround
namespace Discovery

open Signal (SignalRoom Identity Outbound Output Env Registered onMessage joinAccepted)
open Transport (Crates P2PManager Key Nonce TransportError Grows handleSignalMessage
  establishSession offerMessage answerMessage)

variable {c : Crates} {ι σ : Type}

/-! ## What a daemon makes of a message -/

theorem handle_joined (m : P2PManager c) {raw : String} {room : String} {peers : List Identity}
    (hraw : c.fromStr raw = some (toValue (.joined room peers)))
    (reply : Value → Except TransportError (Option String)) (nonce : Nonce) :
    handleSignalMessage m raw reply nonce =
      ⟨m, peers.map fun x => offerMessage m x.val, [], .ok ()⟩ := by
  have htype : ((toValue (.joined room peers)).get "type").bind Value.asStr = some "joined" := rfl
  have hpeers : ((toValue (.joined room peers)).get "peers").bind Value.asArray =
      some (peers.map fun x => .string x.val) := rfl
  have hnames : (peers.map fun x => Value.string x.val).filterMap Value.asStr =
      peers.map fun x => x.val := by
    simp [List.filterMap_map, Function.comp_def]
  simp only [handleSignalMessage, hraw, htype, hpeers, hnames, Option.getD_some, if_true,
    List.map_map, Function.comp_def]

/-- An offer whose handling succeeds is answered. -/
theorem handle_offer {m : P2PManager c} {raw : String} {x : Identity} {data : Option Value}
    (hraw : c.fromStr raw = some (toValue (.envelope "offer" x data)))
    {reply : Value → Except TransportError (Option String)} {nonce : Nonce}
    (hok : (handleSignalMessage m raw reply nonce).result.isOk = true) :
    ∃ m', establishSession m x.val = .ok m' ∧
      handleSignalMessage m raw reply nonce = ⟨m', [answerMessage m' x.val], [], .ok ()⟩ := by
  have htype : ((toValue (.envelope "offer" x data)).get "type").bind Value.asStr =
      some "offer" := rfl
  have hfrom : ((toValue (.envelope "offer" x data)).get "from").bind Value.asStr =
      some x.val := rfl
  cases hm : establishSession m x.val with
  | error err =>
      simp only [handleSignalMessage, hraw, htype, hfrom, hm, Option.getD_some, String.reduceEq,
        if_false, if_true] at hok
      exact absurd hok (by simp [Except.isOk, Except.toBool])
  | ok m' =>
      refine ⟨m', rfl, ?_⟩
      simp only [handleSignalMessage, hraw, htype, hfrom, hm, Option.getD_some, String.reduceEq,
        if_false, if_true]

/-- An answer whose handling succeeds leads to a session. -/
theorem handle_answer {m : P2PManager c} {raw : String} {x : Identity} {data : Option Value}
    (hraw : c.fromStr raw = some (toValue (.envelope "answer" x data)))
    {reply : Value → Except TransportError (Option String)} {nonce : Nonce}
    (hok : (handleSignalMessage m raw reply nonce).result.isOk = true) :
    ∃ m', establishSession m x.val = .ok m' ∧
      handleSignalMessage m raw reply nonce = ⟨m', [], [], .ok ()⟩ := by
  have htype : ((toValue (.envelope "answer" x data)).get "type").bind Value.asStr =
      some "answer" := rfl
  have hfrom : ((toValue (.envelope "answer" x data)).get "from").bind Value.asStr =
      some x.val := rfl
  cases hm : establishSession m x.val with
  | error err =>
      simp only [handleSignalMessage, hraw, htype, hfrom, hm, Option.getD_some, String.reduceEq,
        if_false, if_true] at hok
      exact absurd hok (by simp [Except.isOk, Except.toBool])
  | ok m' =>
      refine ⟨m', rfl, ?_⟩
      simp only [handleSignalMessage, hraw, htype, hfrom, hm, Option.getD_some, String.reduceEq,
        if_false, if_true]

/-- After a handshake there is a session. -/
theorem establish_has {m m' : P2PManager c} {peer : String}
    (h : establishSession m peer = .ok m') : ∃ s, m'.sessions.get peer = some s := by
  obtain ⟨_, key, _, _, _, hget⟩ := Transport.establishSession_ok h
  cases hs : m.sessions.get peer with
  | none => exact ⟨⟨key, 0, 0⟩, by rw [hget, if_pos ⟨rfl, hs⟩]⟩
  | some s => exact ⟨s, by rw [hget, hs, if_neg (fun hc => absurd hc.2 (by simp))]⟩

/-! ## Meetings -/

variable [DecidableEq ι] [DecidableEq σ]

/-- A daemon holds a session with another one. -/
def Knows (w : Net c ι σ) (i j : ι) : Prop :=
  ∃ s, (w.daemon i).manager.sessions.get (w.daemon j).manager.identity = some s

/-- How far a daemon has come in meeting another one. -/
inductive Meeting (w : Net c ι σ) (i j : ι) : Prop where
  /-- The answer to its `join` names the other. -/
  | invited (room : String) (peers : List Identity)
      (h : .message (.joined room peers) ∈ w.down (w.socket i))
      (hj : ∃ x ∈ peers, x.val = (w.daemon j).manager.identity)
  /-- Its offer is on the way to the room. -/
  | offered (h : offerMessage (w.daemon i).manager (w.daemon j).manager.identity ∈
      w.up (w.socket i))
  /-- Its offer is on the way to the other. -/
  | arriving (x : Identity) (data : Option Value)
      (h : .message (.envelope "offer" x data) ∈ w.down (w.socket j))
      (hx : x.val = (w.daemon i).manager.identity)
  /-- The answer is on the way to the room. -/
  | answered (hknows : Knows w j i)
      (h : answerMessage (w.daemon j).manager (w.daemon i).manager.identity ∈ w.up (w.socket j))
  /-- The answer is on the way back. -/
  | returning (hknows : Knows w j i) (x : Identity) (data : Option Value)
      (h : .message (.envelope "answer" x data) ∈ w.down (w.socket i))
      (hx : x.val = (w.daemon j).manager.identity)
  /-- Both have their session. -/
  | known (hknows : Knows w j i) (hknown : Knows w i j)

theorem Knows.step {w : Net c ι σ} {i j : ι} (h : Knows w i j) (a : Action ι σ) :
    Knows (step w a) i j := by
  obtain ⟨s, hs⟩ := h
  obtain ⟨t, ht, -⟩ := (step_daemon w a i).1.kept _ s hs
  exact ⟨t, by rw [identity_step, ht]⟩

theorem offerMessage_step (w : Net c ι σ) (a : Action ι σ) (i : ι) (peer : String) :
    offerMessage ((step w a).daemon i).manager peer = offerMessage (w.daemon i).manager peer := by
  simp only [offerMessage, identity_step]

theorem answerMessage_step (w : Net c ι σ) (a : Action ι σ) (i : ι) (peer : String) :
    answerMessage ((step w a).daemon i).manager peer =
      answerMessage (w.daemon i).manager peer := by
  simp only [answerMessage, identity_step]

/-! ## Taking from a queue -/

/-- A daemon that is connected keeps its socket. -/
theorem socket_step {w : Net c ι σ} {i : ι} (hi : (w.daemon i).connected = true)
    (a : Action ι σ) : (step w a).socket i = w.socket i := by
  have hupdate (k : ι) (d : Daemon c) (hd : d.connection = (w.daemon k).connection) :
      (Function.update w.daemon k d i).connection = (w.daemon i).connection := by
    by_cases hik : i = k
    · subst hik
      rw [Function.update_self, hd]
    · rw [Function.update_of_ne hik]
  simp only [Net.socket, Socket.daemon.injEq, true_and]
  cases a with
  | connect k =>
      simp only [step]
      split
      · rfl
      · next hk =>
          have hik : i ≠ k := by
            rintro rfl
            exact hk hi
          simp only [Function.update_of_ne hik]
  | lose k => exact hupdate k _ rfl
  | receive k raw reply nonce =>
      simp only [step, Net.read]
      split
      · split
        · rfl
        · exact hupdate k _ rfl
        · exact hupdate k _ rfl
      · rfl
  | serve k n env =>
      simp only [step]
      split
      · rfl
      · split <;> rfl
  | stranger q env parsed =>
      simp only [step]
      split <;> rfl
  | close s env =>
      simp only [step]
      split <;> rfl

/-- What waits for a daemon goes on waiting, unless it comes first and is read. -/
theorem down_step {w : Net c ι σ} {i : ι} {d : Down} (hd : d ∈ w.down (w.socket i))
    (a : Action ι σ) :
    d ∈ (step w a).down (w.socket i) ∨ ∃ raw reply nonce rest, a = .receive i raw reply nonce ∧
      (w.daemon i).connected = true ∧ w.down (w.socket i) = d :: rest := by
  have hdeliver (out : List (Output (Socket ι σ))) : d ∈ deliver w.down out (w.socket i) :=
    List.mem_append_left _ hd
  have hpop (k : ι) (e : Down) (rest : List Down) (hk : (w.daemon k).connected = true)
      (raw : String) (reply : Value → Except TransportError (Option String)) (nonce : Nonce)
      (hdown : w.down (w.socket k) = e :: rest) :
      d ∈ Function.update w.down (w.socket k) rest (w.socket i) ∨
        ∃ raw' reply' nonce' rest', Action.receive k raw reply nonce =
            (.receive i raw' reply' nonce' : Action ι σ) ∧
          (w.daemon i).connected = true ∧ w.down (w.socket i) = d :: rest' := by
    by_cases hik : w.socket i = w.socket k
    · have hki : i = k := by
        simp only [Net.socket, Socket.daemon.injEq] at hik
        exact hik.1
      subst hki
      rw [hdown, List.mem_cons] at hd
      rcases hd with rfl | hd
      · exact .inr ⟨raw, reply, nonce, rest, rfl, hk, hdown⟩
      · exact .inl (by rwa [Function.update_self])
    · exact .inl (by rwa [Function.update_of_ne hik])
  cases a with
  | connect k =>
      refine .inl ?_
      simp only [step]
      split <;> exact hd
  | lose k => exact .inl hd
  | receive k raw reply nonce =>
      simp only [step, Net.read]
      split
      · next hk =>
          split
          · exact .inl hd
          · next rest hdown => exact hpop k _ rest hk raw reply nonce hdown
          · next m rest hdown => exact hpop k _ rest hk raw reply nonce hdown
      · exact .inl hd
  | serve k n env =>
      refine .inl ?_
      simp only [step]
      split
      · exact hd
      · split
        · exact hd
        · exact hdeliver _
  | stranger q env parsed =>
      refine .inl ?_
      simp only [step]
      split
      · exact hd
      · exact hdeliver _
  | close s env =>
      refine .inl ?_
      simp only [step]
      split
      · exact hd
      · exact hdeliver _

/-- What a daemon has sent goes on waiting, unless it comes first and the room handles
it. -/
theorem up_step {w : Net c ι σ} {i : ι} {v : Value} (hv : v ∈ w.up (w.socket i))
    (a : Action ι σ) :
    v ∈ (step w a).up (w.socket i) ∨ ∃ env rest, a = .serve i (w.daemon i).connection env ∧
      w.socket i ∉ w.closed ∧ w.up (w.socket i) = v :: rest := by
  cases a with
  | connect k =>
      refine .inl ?_
      simp only [step]
      split
      · exact hv
      · have hne : w.socket i ≠ .daemon k ((w.daemon k).connection + 1) := by
          simp only [Net.socket, ne_eq, Socket.daemon.injEq, not_and]
          rintro rfl
          exact (Nat.lt_succ_self _).ne
        simp only [Function.update_of_ne hne]
        exact hv
  | lose k => exact .inl hv
  | receive k raw reply nonce =>
      refine .inl ?_
      simp only [step, Net.read]
      split
      · split
        · exact hv
        · exact hv
        · by_cases hik : w.socket i = w.socket k
          · simp only [hik, Function.update_self]
            exact List.mem_append_left _ (hik ▸ hv)
          · simp only [Function.update_of_ne hik]
            exact hv
      · exact hv
  | serve k n env =>
      simp only [step]
      split
      · exact .inl hv
      · next hopen =>
          split
          · exact .inl hv
          · next e rest hup =>
              by_cases hik : w.socket i = .daemon k n
              · rw [← hik] at hup hopen
                rw [hup, List.mem_cons] at hv
                rcases hv with rfl | hv
                · simp only [Net.socket, Socket.daemon.injEq] at hik
                  obtain ⟨rfl, rfl⟩ := hik
                  exact .inr ⟨env, rest, rfl, hopen, hup⟩
                · refine .inl ?_
                  simp only [hik, Function.update_self]
                  exact hv
              · refine .inl ?_
                simp only [Function.update_of_ne hik]
                exact hv
  | stranger q env parsed =>
      refine .inl ?_
      simp only [step]
      split <;> exact hv
  | close s env =>
      refine .inl ?_
      simp only [step]
      split <;> exact hv

/-! ## A step leads on -/

/-- What reading a message does to the net. -/
theorem step_receive {w : Net c ι σ} {k : ι} (hk : (w.daemon k).connected = true) {m : Outbound}
    {rest : List Down} (hdown : w.down (w.socket k) = .message m :: rest) (raw : String)
    (reply : Value → Except TransportError (Option String)) (nonce : Nonce) :
    step w (.receive k raw reply nonce) =
      { w with
        daemon := Function.update w.daemon k
          ⟨(handleSignalMessage (w.daemon k).manager raw reply nonce).manager,
            (w.daemon k).connection,
            (handleSignalMessage (w.daemon k).manager raw reply nonce).result.isOk⟩
        down := Function.update w.down (w.socket k) rest
        up := Function.update w.up (w.socket k) (w.up (w.socket k) ++
          (handleSignalMessage (w.daemon k).manager raw reply nonce).sent) } := by
  simp only [step, Net.read, hdown, if_pos hk]

/-- What handling a message of a daemon does to the net. -/
theorem step_serve {w : Net c ι σ} {i : ι} {v : Value} {rest : List Value}
    (hopen : w.socket i ∉ w.closed) (hup : w.up (w.socket i) = v :: rest)
    (env : Env (Socket ι σ)) :
    step w (.serve i (w.daemon i).connection env) =
      { w.handle (w.socket i) env (some v) with
        up := Function.update w.up (w.socket i) rest } := by
  simp only [Net.socket] at hopen hup
  simp only [step, hup, if_neg hopen, Net.socket]

/-- The data of an offer and of an answer are far from the limit. -/
theorem size_offer (js : Signal.Js) :
    Signal.messageSize js (some (.object [("type", .string "mcp_relay")])) = 20 := rfl

theorem size_answer (js : Signal.Js) : Signal.messageSize js
    (some (.object [("type", .string "mcp_relay"), ("accepted", .bool true)])) = 36 := rfl

/-- **The room passes on** what one daemon in it has for another one. -/
theorem serve_handshake {w : Net c ι σ} {i j : ι} (hi : Joined w i) (hj : Joined w j)
    {env : Env (Socket ι σ)} (hfaithful : Faithful w (.serve i (w.daemon i).connection env))
    (type : String) {v data : Value} {rest : List Value} (hup : w.up (w.socket i) = v :: rest)
    (htype : (v.get "type").bind Value.asStr = some type)
    (hhandshake : type = "offer" ∨ type = "answer")
    (hfrom : v.get "from" = some (.string (w.daemon i).manager.identity))
    (hto : v.get "to" = some (.string (w.daemon j).manager.identity))
    (hdata : v.get "data" = some data)
    (hsize : Signal.messageSize env.js (some data) ≤ Signal.maxMessageBytes) :
    ∃ x : Identity, x.val = (w.daemon i).manager.identity ∧
      .message (.envelope type x (some data)) ∈
        (step w (.serve i (w.daemon i).connection env)).down (w.socket j) := by
  obtain ⟨x, hx, hsocket, -⟩ := hi.registered
  obtain ⟨y, hy, -, e, he, hws⟩ := hj.registered
  have hreach : env.sendFails e.ws = false := hws ▸ hfaithful j hj.connected
  rw [← hx] at hfrom
  rw [← hy] at hto
  have hmessage := Signal.onMessage_forwarded htype hhandshake hfrom hto hsocket he
    (by rwa [hdata]) hreach
  refine ⟨x, hx, ?_⟩
  rw [step_serve hi.isOpen hup]
  simp only [Net.handle, hmessage, deliver, hdata, hws]
  simp [arrival]

/-- **A step leads on.**  As long as two daemons stay in the room, whatever happens leads
their meeting on or leaves it where it is. -/
theorem Meeting.step {w : Net c ι σ} {i j : ι} (h : Meeting w i j) (hi : Joined w i)
    (hj : Joined w j) {a : Action ι σ} (hfaithful : Faithful w a)
    (hi' : ((Discovery.step w a).daemon i).connected = true)
    (hj' : ((Discovery.step w a).daemon j).connected = true) :
    Meeting (Discovery.step w a) i j := by
  have hsocketi := socket_step hi.connected a
  have hsocketj := socket_step hj.connected a
  cases h with
  | invited room peers h hnamed =>
      rcases down_step h a with h' | ⟨raw, reply, nonce, rest, rfl, -, hdown⟩
      · exact .invited room peers (hsocketi ▸ h') (by rwa [identity_step])
      · -- it makes everyone an offer
        obtain ⟨x, hx, hname⟩ := hnamed
        refine .offered ?_
        rw [hsocketi, offerMessage_step, identity_step, step_receive hi.connected hdown,
          handle_joined _ (hfaithful _ _ hdown)]
        simp only [Function.update_self, List.mem_append, List.mem_map]
        exact .inr ⟨x, hx, by rw [hname]⟩
  | offered h =>
      rcases up_step h a with h' | ⟨env, rest, rfl, -, hup⟩
      · refine .offered ?_
        rw [hsocketi, offerMessage_step, identity_step]
        exact h'
      · obtain ⟨x, hx, h'⟩ := serve_handshake hi hj hfaithful "offer" hup rfl (.inl rfl)
          rfl rfl rfl (by rw [size_offer]; decide)
        exact .arriving x _ (hsocketj ▸ h') (by rwa [identity_step])
  | arriving x data h hx =>
      rcases down_step h a with h' | ⟨raw, reply, nonce, rest, rfl, -, hdown⟩
      · exact .arriving x data (hsocketj ▸ h') (by rwa [identity_step])
      · -- the other one derives its key and answers
        rw [step_receive hj.connected hdown] at hj'
        simp only [Function.update_self] at hj'
        obtain ⟨m', hm, hhandled⟩ := handle_offer (hfaithful _ _ hdown) hj'
        obtain ⟨s, hs⟩ := establish_has hm
        have hstep := step_receive hj.connected hdown raw reply nonce
        rw [hhandled] at hstep
        refine .answered ⟨s, ?_⟩ ?_
        · rw [identity_step, ← hx, hstep]
          simp only [Function.update_self]
          exact hs
        · rw [hsocketj, identity_step, ← hx, hstep]
          simp only [Function.update_self]
          exact List.mem_append_right _ (List.mem_singleton_self _)
  | answered hknows h =>
      rcases up_step h a with h' | ⟨env, rest, rfl, -, hup⟩
      · refine .answered (hknows.step a) ?_
        rw [hsocketj, answerMessage_step, identity_step]
        exact h'
      · obtain ⟨x, hx, h'⟩ := serve_handshake hj hi hfaithful "answer" hup rfl (.inr rfl)
          rfl rfl rfl (by rw [size_answer]; decide)
        exact .returning (hknows.step _) x _ (hsocketi ▸ h') (by rwa [identity_step])
  | returning hknows x data h hx =>
      rcases down_step h a with h' | ⟨raw, reply, nonce, rest, rfl, -, hdown⟩
      · exact .returning (hknows.step a) x data (hsocketi ▸ h') (by rwa [identity_step])
      · -- the first one derives its key too
        have hstep := step_receive hi.connected hdown raw reply nonce
        rw [hstep] at hi'
        simp only [Function.update_self] at hi'
        obtain ⟨m', hm, hhandled⟩ := handle_answer (hfaithful _ _ hdown) hi'
        obtain ⟨s, hs⟩ := establish_has hm
        rw [hhandled] at hstep
        refine .known (hknows.step _) ⟨s, ?_⟩
        rw [identity_step, ← hx, hstep]
        simp only [Function.update_self]
        exact hs
  | known hknows hknown => exact .known (hknows.step a) (hknown.step a)

/-! ## Who is in the room -/

/-- Who is registered after a message was so before, or has joined by it. -/
theorem registered_onMessage {Ws : Type} [DecidableEq Ws] {s u : Ws} {x : Identity} {env : Env Ws}
    {parsed : Option Value} {room : SignalRoom Ws}
    (h : Registered u x (onMessage env s parsed room).room) :
    Registered u x room ∨ (u = s ∧ joinAccepted env s parsed room = some x) := by
  have hmaps := Signal.onMessage_maps env s parsed room
  obtain ⟨hu, e, he, hws⟩ := h
  cases hj : joinAccepted env s parsed room with
  | none =>
      rw [hj] at hmaps
      rw [hmaps.2] at hu
      rw [hmaps.1] at he
      exact .inl ⟨hu, e, he, hws⟩
  | some y =>
      rw [hj] at hmaps
      obtain ⟨j, hroom⟩ := hmaps
      rw [hroom] at hu he
      rcases Signal.sockets_registered_cases hu with ⟨rfl, rfl⟩ | ⟨hus, hbefore, -⟩
      · exact .inr ⟨rfl, rfl⟩
      · refine .inl ⟨hbefore, e, ?_, hws⟩
        rw [Signal.get_peers_registered] at he
        split at he
        · rw [Option.some.injEq] at he
          exact absurd (hws ▸ he ▸ rfl) hus
        · exact he

theorem registered_onClose {Ws : Type} [DecidableEq Ws] {s u : Ws} {x : Identity} {env : Env Ws}
    {room : SignalRoom Ws} (hus : u ≠ s) (h : Registered u x (Signal.onClose env s room).room) :
    Registered u x room := by
  obtain ⟨hu, e, he, hws⟩ := h
  rw [Signal.get_sockets_onClose hus] at hu
  refine ⟨hu, e, ?_, hws⟩
  rcases Signal.onClose_maps env s room with ⟨y, -, hpeers, -⟩ | ⟨-, hpeers, -⟩
  · rw [hpeers, OrdMap.get_delete] at he
    split at he
    · exact absurd he (by simp)
    · exact he
  · rwa [hpeers] at he

/-- The room answers the `join` of a daemon. -/
structure Admits (w : Net c ι σ) (i : ι) (a : Action ι σ) (env : Env (Socket ι σ)) (v : Value)
    (rest : List Value) (x : Identity) : Prop where
  action : a = .serve i (w.daemon i).connection env
  connected : (w.daemon i).connected = true
  isOpen : w.socket i ∉ w.closed
  waits : w.up (w.socket i) = v :: rest
  accepted : joinAccepted env (w.socket i) (some v) w.room = some x
  identity : x.val = (w.daemon i).manager.identity

/-- Reading is no business of the room. -/
theorem receive_room (w : Net c ι σ) (k : ι) (raw : String)
    (reply : Value → Except TransportError (Option String)) (nonce : Nonce) :
    (step w (.receive k raw reply nonce)).room = w.room ∧
      (step w (.receive k raw reply nonce)).closed = w.closed := by
  simp only [step, Net.read]
  split
  · split <;> exact ⟨rfl, rfl⟩
  · exact ⟨rfl, rfl⟩

/-- Reading connects nobody. -/
theorem connected_receive {w : Net c ι σ} {i k : ι} {raw : String}
    {reply : Value → Except TransportError (Option String)} {nonce : Nonce}
    (h : ((step w (.receive k raw reply nonce)).daemon i).connected = true) :
    (w.daemon i).connected = true := by
  by_cases hk : (w.daemon k).connected = true
  · by_cases hik : i = k
    · exact hik ▸ hk
    · simp only [step, Net.read, if_pos hk] at h
      split at h
      · exact h
      · simpa only [Function.update_of_ne hik] using h
      · simpa only [Function.update_of_ne hik] using h
  · simpa only [step, if_neg hk] using h

/-- Who is in the room after a step was there before, or is let in by it. -/
theorem joined_step {w : Net c ι σ} (ho : Orderly w) {i : ι} {a : Action ι σ}
    (h : Joined (step w a) i) : Joined w i ∨ ∃ env v rest x, Admits w i a env v rest x := by
  obtain ⟨hcon, hopen, x, hx, hreg⟩ := h
  rw [identity_step] at hx
  cases a with
  | connect k =>
      simp only [step] at hcon hopen hreg
      split at hcon
      · exact .inl ⟨hcon, by simpa [*] using hopen, x, hx, by simpa [*] using hreg⟩
      · next hk =>
          rw [if_neg hk] at hopen hreg
          by_cases hik : i = k
          · subst hik
            -- a new connection is not known to the room
            have hunknown := (ho.unknown i ((w.daemon i).connection + 1) (Nat.lt_succ_self _)).1
            simp only [Net.socket, Function.update_self] at hreg
            exact absurd (hunknown.symm.trans hreg.1) (by simp)
          · simp only [Net.socket, Function.update_of_ne hik] at hcon hopen hreg
            exact .inl ⟨hcon, hopen, x, hx, hreg⟩
  | lose k =>
      simp only [step] at hcon hopen hreg
      by_cases hik : i = k
      · subst hik
        simp at hcon
      · simp only [Net.socket, Function.update_of_ne hik] at hcon hopen hreg
        exact .inl ⟨hcon, hopen, x, hx, hreg⟩
  | receive k raw reply nonce =>
      obtain ⟨hroom, hclosed⟩ := receive_room w k raw reply nonce
      have hbefore := connected_receive hcon
      rw [socket_step hbefore, hclosed] at hopen
      rw [socket_step hbefore, hroom] at hreg
      exact .inl ⟨hbefore, hopen, x, hx, hreg⟩
  | serve k n env =>
      simp only [step] at hcon hopen hreg
      split at hcon
      · next hk => exact .inl ⟨hcon, by simpa [hk] using hopen, x, hx, by simpa [hk] using hreg⟩
      · next hk =>
          rw [if_neg hk] at hopen hreg
          split at hcon
          · next hup => exact .inl ⟨hcon, by simpa [hup] using hopen, x, hx, by simpa [hup] using hreg⟩
          · next v rest hup =>
              rw [hup] at hopen hreg
              rcases registered_onMessage hreg with hbefore | ⟨hs, hj⟩
              · exact .inl ⟨hcon, hopen, x, hx, hbefore⟩
              · simp only [Net.socket, Net.handle, Socket.daemon.injEq] at hs
                obtain ⟨rfl, rfl⟩ := hs
                exact .inr ⟨env, v, rest, x, rfl, hcon, hopen, hup, hj, hx⟩
  | stranger q env parsed =>
      simp only [step] at hcon hopen hreg
      split at hcon
      · next hq => exact .inl ⟨hcon, by simpa [hq] using hopen, x, hx, by simpa [hq] using hreg⟩
      · next hq =>
          rw [if_neg hq] at hopen hreg
          rcases registered_onMessage hreg with hbefore | ⟨hs, -⟩
          · exact .inl ⟨hcon, hopen, x, hx, hbefore⟩
          · simp [Net.socket] at hs
  | close s env =>
      simp only [step] at hcon hopen hreg
      split at hcon
      · next hs => exact .inl ⟨hcon, by simpa [hs] using hopen, x, hx, by simpa [hs] using hreg⟩
      · next hs =>
          rw [if_neg hs] at hopen hreg
          simp only [List.mem_cons, not_or] at hopen
          exact .inl ⟨hcon, hopen.2, x, hx, registered_onClose hopen.1 hreg⟩

/-! ## Everyone in the room is meeting -/

/-- Every two daemons in the room are meeting, one way or the other. -/
def Met (w : Net c ι σ) : Prop :=
  ∀ i j, i ≠ j → Joined w i → Joined w j → Meeting w i j ∨ Meeting w j i

/-- A daemon that is let in is told of everyone who is there. -/
theorem Admits.invited {w : Net c ι σ} (ho : Orderly w) {i j : ι} (hij : i ≠ j) {a : Action ι σ}
    {env : Env (Socket ι σ)} {v : Value} {rest : List Value} {x : Identity}
    (hi : Admits w i a env v rest x) (hj : Joined w j) (hfaithful : Faithful w a) :
    Meeting (step w a) i j := by
  obtain ⟨rfl, hcon, hopen, hup, haccepted, hx⟩ := hi
  obtain ⟨y, hy, -, e, he, -⟩ := hj.registered
  obtain ⟨peers, hsent, hpeers⟩ := Signal.onMessage_joined haccepted (hfaithful i hcon)
  have hyx : y ≠ x := by
    rintro rfl
    exact hij (ho.distinct i j (hx.symm.trans hy))
  refine .invited "" peers ?_ ⟨y, hpeers y hyx ⟨e, he⟩, by rw [identity_step, hy]⟩
  rw [socket_step hcon, step_serve hopen hup]
  simp only [Net.handle, deliver, List.mem_append, List.mem_filterMap]
  exact .inr ⟨_, hsent, by simp [arrival]⟩

theorem Met.step {w : Net c ι σ} (h : Met w) (ho : Orderly w) {a : Action ι σ}
    (hfaithful : Faithful w a) : Met (Discovery.step w a) := by
  intro i j hij hi hj
  rcases joined_step ho hi with hbeforei | ⟨env, v, rest, x, hadmits⟩
  · rcases joined_step ho hj with hbeforej | ⟨env, v, rest, x, hadmits⟩
    · rcases h i j hij hbeforei hbeforej with hmeet | hmeet
      · exact .inl (hmeet.step hbeforei hbeforej hfaithful hi.connected hj.connected)
      · exact .inr (hmeet.step hbeforej hbeforei hfaithful hj.connected hi.connected)
    · exact .inr (hadmits.invited ho hij.symm hbeforei hfaithful)
  · -- one daemon is let in at a time
    rcases joined_step ho hj with hbeforej | ⟨env', v', rest', x', hadmits'⟩
    · exact .inl (hadmits.invited ho hij hbeforej hfaithful)
    · have hsame := hadmits.action.symm.trans hadmits'.action
      simp only [Action.serve.injEq] at hsame
      exact absurd hsame.1 hij

theorem met_start (secret : ι → Key) : Met (Net.start c σ secret) :=
  fun i j _ hi _ => absurd hi.connected (by simp [Net.start])

theorem met_run (hhex : c.HexRoundTrip) {secret : ι → Key}
    (hdistinct : Function.Injective fun i => c.x25519Public (secret i)) {as : List (Action ι σ)}
    (hfaithful : Runs.StepsMeet step Faithful (Net.start c σ secret) as) :
    Orderly (Runs.run step (Net.start c σ secret) as) ∧
      Met (Runs.run step (Net.start c σ secret) as) := by
  have hstep : ∀ (w : Net c ι σ) a, Orderly w ∧ Met w → Faithful w a →
      Orderly (step w a) ∧ Met (step w a) :=
    fun _ a h ha => ⟨h.1.step a, h.2.step h.1 ha⟩
  exact Runs.run_invariant Discovery.step hstep
    ⟨orderly_start hhex hdistinct, met_start secret⟩ hfaithful

omit [DecidableEq ι] [DecidableEq σ] in
/-- Where nothing waits, a meeting is over. -/
theorem Meeting.of_idle {w : Net c ι σ} {i j : ι} (h : Meeting w i j) (hi : Idle w i)
    (hj : Idle w j) : Knows w i j ∧ Knows w j i := by
  obtain ⟨hdowni, hupi⟩ := hi
  obtain ⟨hdownj, hupj⟩ := hj
  cases h with
  | invited room peers h hnamed => simp [hdowni] at h
  | offered h => simp [hupi] at h
  | arriving x data h hx => simp [hdownj] at h
  | answered hknows h => simp [hupj] at h
  | returning hknows x data h hx => simp [hdowni] at h
  | known hknows hknown => exact ⟨hknown, hknows⟩

/-- Two daemons that know each other hold one key. -/
theorem Orderly.agree {w : Net c ι σ} (h : Orderly w) (hshared : c.SharedComm)
    (hhex : c.HexRoundTrip) {i j : ι} {s t : Transport.Session}
    (hs : (w.daemon i).manager.sessions.get (w.daemon j).manager.identity = some s)
    (ht : (w.daemon j).manager.sessions.get (w.daemon i).manager.identity = some t) :
    s.key = t.key := by
  obtain ⟨p, hp, hkeyi⟩ := h.derived i _ s hs
  obtain ⟨q, hq, hkeyj⟩ := h.derived j _ t ht
  rw [Transport.parseIdentity_identity hhex, Except.ok.injEq] at hp hq
  subst hp hq
  rw [Transport.sessionKey_comm hshared, hkeyj] at hkeyi
  exact (Option.some.inj hkeyi).symm

/-- Where nothing waits on the connections of two daemons in the room, they share a key. -/
theorem Met.share {w : Net c ι σ} (h : Met w) (ho : Orderly w) (hshared : c.SharedComm)
    (hhex : c.HexRoundTrip) {i j : ι} (hij : i ≠ j) (hi : Joined w i) (hj : Joined w j)
    (hidlei : Idle w i) (hidlej : Idle w j) :
    ∃ s t, (w.daemon i).manager.sessions.get (w.daemon j).manager.identity = some s ∧
      (w.daemon j).manager.sessions.get (w.daemon i).manager.identity = some t ∧
      s.key = t.key := by
  have hknow : Knows w i j ∧ Knows w j i := by
    rcases h i j hij hi hj with h | h
    · exact h.of_idle hidlei hidlej
    · exact (h.of_idle hidlej hidlei).symm
  obtain ⟨⟨s, hs⟩, t, ht⟩ := hknow
  exact ⟨s, t, hs, ht, ho.agree hshared hhex hs ht⟩

/-- **Discovery is complete.**  However daemons connect, lose their connections and come
back, whatever anybody else says to the room, and in whatever order all this happens:
where nothing waits any more on the connections of two daemons in the room, they hold a
session with each other, under one key. -/
theorem discovery_complete (hshared : c.SharedComm) (hhex : c.HexRoundTrip) {secret : ι → Key}
    (hdistinct : Function.Injective fun i => c.x25519Public (secret i)) (as : List (Action ι σ))
    (hfaithful : Runs.StepsMeet step Faithful (Net.start c σ secret) as) :
    let w := Runs.run step (Net.start c σ secret) as
    ∀ i j, i ≠ j → Joined w i → Joined w j → Idle w i → Idle w j →
      ∃ s t, (w.daemon i).manager.sessions.get (w.daemon j).manager.identity = some s ∧
        (w.daemon j).manager.sessions.get (w.daemon i).manager.identity = some t ∧
        s.key = t.key := by
  intro w i j hij hi hj hidlei hidlej
  obtain ⟨ho, hmet⟩ := met_run hhex hdistinct hfaithful
  exact hmet.share ho hshared hhex hij hi hj hidlei hidlej

/-! ## Two daemons -/

namespace Sample

open Transport.Reference

theorem pattern_publicA : Signal.identityPattern (hexEncode publicA.toList) = true := by
  decide +kernel

theorem pattern_publicB : Signal.identityPattern (hexEncode publicB.toList) = true := by
  decide +kernel

def nameA : Identity := ⟨hexEncode publicA.toList, pattern_publicA⟩

def nameB : Identity := ⟨hexEncode publicB.toList, pattern_publicB⟩

def offerData : Option Value := some (.object [("type", .string "mcp_relay")])

def answerData : Option Value :=
  some (.object [("type", .string "mcp_relay"), ("accepted", .bool true)])

/-- The crates; the JSON reader knows all that the two get to hear. -/
def crates : Crates :=
  { Transport.Reference.withoutJson with
    fromStr := readAmong ([.joined "" [], .joined "" [nameA], .peerJoined nameB,
      .envelope "offer" nameA offerData, .envelope "offer" nameB offerData,
      .envelope "answer" nameA answerData, .envelope "answer" nameB answerData].map toValue) }

def env : Env (Socket Bool Empty) := ⟨⟨fun _ => [], fun _ => none⟩, fun _ => false, 0, 0⟩

def serve (i : Bool) : Action Bool Empty := .serve i 1 env

def receive (i : Bool) (m : Outbound) : Action Bool Empty :=
  .receive i (text (toValue m)) (fun _ => .ok none) nonce

/-- Both join, each offers and each answers. -/
def schedule : List (Action Bool Empty) :=
  [.connect false, .connect true, serve false, receive false (.joined "" []), serve true,
    receive false (.peerJoined nameB), receive true (.joined "" [nameA]), serve false, serve true,
    receive false (.envelope "offer" nameB offerData),
    receive true (.envelope "offer" nameA offerData), serve false, serve true,
    receive false (.envelope "answer" nameB answerData),
    receive true (.envelope "answer" nameA answerData)]

def net : Net crates Bool Empty := Runs.run step (Net.start crates Empty secrets) schedule

/-- The run is faithful, and after it both are in the room and nothing waits. -/
theorem schedule_outcome :
    Runs.StepsMeet step Faithful (Net.start crates Empty secrets) schedule ∧
      ∀ i, (net.daemon i).connected = true ∧ net.socket i ∉ net.closed ∧
        (cond i nameB nameA).val = (net.daemon i).manager.identity ∧
        net.room.sockets.get (net.socket i) = some (cond i nameB nameA) ∧
        (net.room.peers.get (cond i nameB nameA)).map (·.ws) = some (net.socket i) ∧
        (net.down (net.socket i)).isEmpty = true ∧ (net.up (net.socket i)).isEmpty = true := by
  decide +kernel

theorem joined_net (i : Bool) : Joined net i := by
  obtain ⟨hcon, hopen, hname, hsocket, hpeer, -⟩ := schedule_outcome.2 i
  obtain ⟨e, he, hws⟩ := Option.map_eq_some_iff.1 hpeer
  exact ⟨hcon, hopen, _, hname, hsocket, e, he, hws⟩

theorem idle_net (i : Bool) : Idle net i := by
  obtain ⟨-, -, -, -, -, hdown, hup⟩ := schedule_outcome.2 i
  exact ⟨List.isEmpty_iff.1 hdown, List.isEmpty_iff.1 hup⟩

end Sample

open Sample Transport.Reference in
theorem discovery_complete_two :
    ∃ s t, (net.daemon false).manager.sessions.get (net.daemon true).manager.identity = some s ∧
      (net.daemon true).manager.sessions.get (net.daemon false).manager.identity = some t ∧
      s.key = t.key := by
  have hshared : crates.SharedComm := fun a _ =>
    Transport.meet_comm (x25519Public a) _
  have hhex : crates.HexRoundTrip := hexDecode_hexEncode
  have hdistinct : Function.Injective fun i => crates.x25519Public (secrets i) := by decide +kernel
  have hjoined := joined_net
  have hidle := idle_net
  unfold net at hjoined hidle ⊢
  exact discovery_complete hshared hhex hdistinct schedule schedule_outcome.1 false true
    Bool.false_ne_true (hjoined false) (hjoined true) (hidle false) (hidle true)

end Discovery
end FolkAround
