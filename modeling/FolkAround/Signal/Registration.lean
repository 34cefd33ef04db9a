import FolkAround.Signal.Room

/-!
# Registration

The two maps of a room say the same thing twice: `peers` which socket an identity
belongs to, `sockets` which identity a socket holds.  They are meant to be inverse
to each other, and to forget a socket that was closed.

* `Consistent` — that they are and do.
* `KeepsOneIdentity` — the condition on an event under which this survives: no
  socket joins under a second identity, and the announcement of a close reaches
  everyone.
* `step_consistent_iff` — for one event the condition is exact.
* `run_consistent_iff` — and so it is for whole runs.
-/

namespace FolkAround
namespace Signal

variable {Ws : Type} [DecidableEq Ws]

/-! ## The invariant and its condition -/

/-- `peers` and `sockets` are inverse to each other. -/
def Inverse (room : SignalRoom Ws) : Prop :=
  ∀ s x, (∃ e, room.peers.get x = some e ∧ e.ws = s) ↔ room.sockets.get s = some x

/-- The registrations of a room are in order. -/
structure Consistent (w : World Ws) : Prop where
  inverse : Inverse w.room
  /-- A socket stands in `peers` under one identity at most. -/
  single : ∀ s x y, (∃ e, w.room.peers.get x = some e ∧ e.ws = s) →
    (∃ e, w.room.peers.get y = some e ∧ e.ws = s) → x = y
  /-- A closed socket stands in `peers` under none. -/
  closed : ∀ s ∈ w.closed, ∀ x e, w.room.peers.get x = some e → e.ws ≠ s

/-- An accepted join comes from a socket that holds no other identity, and the
announcement that a socket left reaches every other one. -/
def KeepsOneIdentity (w : World Ws) : Action Ws → Prop
  | .message s env parsed => s ∉ w.closed →
      ∀ x y, joinAccepted env s parsed w.room = some x → w.room.sockets.get s = some y → x = y
  | .close s env => s ∉ w.closed →
      ∀ x, w.room.sockets.get s = some x → OthersReachable env s w.room

theorem Inverse.single {room : SignalRoom Ws} (h : Inverse room) (s : Ws) (x y : Identity)
    (hx : ∃ e, room.peers.get x = some e ∧ e.ws = s)
    (hy : ∃ e, room.peers.get y = some e ∧ e.ws = s) : x = y := by
  have hsx := (h s x).1 hx
  have hsy := (h s y).1 hy
  rw [hsx] at hsy
  exact Option.some.inj hsy

/-- Given that the maps are inverse, a closed socket is forgotten by both or by none. -/
theorem consistent_iff {w : World Ws} :
    Consistent w ↔ Inverse w.room ∧ ∀ s ∈ w.closed, w.room.sockets.get s = none := by
  constructor
  · intro h
    refine ⟨h.inverse, fun s hs => ?_⟩
    cases hx : w.room.sockets.get s with
    | none => rfl
    | some x =>
        obtain ⟨e, he, hws⟩ := (h.inverse s x).2 hx
        exact absurd hws (h.closed s hs x e he)
  · rintro ⟨hinv, hcl⟩
    refine ⟨hinv, hinv.single, fun s hs x e he hws => ?_⟩
    have hx := (hinv s x).1 ⟨e, he, hws⟩
    rw [hcl s hs] at hx
    exact absurd hx (by simp)

theorem Inverse.registered_iff {room : SignalRoom Ws} (h : Inverse room) (s : Ws) (x : Identity) :
    Registered s x room ↔ room.sockets.get s = some x :=
  ⟨And.left, fun hx => ⟨hx, (h s x).2 hx⟩⟩

/-- Being inverse is a matter of the two maps only. -/
theorem Inverse.congr {room room' : SignalRoom Ws} (hp : room'.peers = room.peers)
    (hs : room'.sockets = room.sockets) : Inverse room' ↔ Inverse room := by
  unfold Inverse; rw [hp, hs]

/-! ## One event -/

/-- After an accepted join the maps are inverse again exactly if the socket held no
other identity before. -/
theorem inverse_registered_iff {room : SignalRoom Ws} (h : Inverse room) (s : Ws) (x : Identity)
    (j : Int) :
    Inverse (registered s x j room) ↔ ∀ y, room.sockets.get s = some y → x = y := by
  constructor
  · intro h' y hy
    obtain ⟨e, he, hws⟩ := (h s y).2 hy
    have hx : (registered s x j room).sockets.get s = some x := by
      rw [get_sockets_registered, if_pos rfl]
    by_cases hxy : x = y
    · exact hxy
    · have hstill : ∃ e, (registered s x j room).peers.get y = some e ∧ e.ws = s :=
        ⟨e, by rw [get_peers_registered, if_neg hxy, he], hws⟩
      rw [h' s y, hx] at hstill
      exact Option.some.inj hstill
  · intro hone u y
    rw [get_peers_registered, get_sockets_registered]
    by_cases hu : s = u
    · subst hu
      by_cases hxy : x = y
      · simp [hxy]
      · simp only [hxy, if_false, if_true, Option.some.injEq, iff_false]
        exact fun hc => hxy (hone y ((h s y).1 hc))
    · by_cases hxy : x = y
      · subst hxy
        simp only [if_true, Option.some.injEq, exists_eq_left', hu, if_false, false_iff]
        split
        · simp
        · next hr =>
            intro hc
            obtain ⟨e, he, hws⟩ := (h u x).2 hc
            exact hr (replaced_eq_some_iff.2 ⟨e, he, hws, Ne.symm hu⟩)
      · simp only [hxy, hu, if_false]
        split
        · next hr =>
            obtain ⟨e, he, hws, -⟩ := replaced_eq_some_iff.1 hr
            have hux : room.sockets.get u = some x := (h u x).1 ⟨e, he, hws⟩
            rw [h u y, hux]
            simp [hxy]
        · exact h u y

/-- After a close the maps are inverse again exactly if the socket held no identity
or everyone else could be told. -/
theorem inverse_onClose_iff {room : SignalRoom Ws} (h : Inverse room) (env : Env Ws) (s : Ws) :
    (Inverse (onClose env s room).room ∧ (onClose env s room).room.sockets.get s = none) ↔
      ∀ x, room.sockets.get s = some x → OthersReachable env s room := by
  have hkeep (hp : ∀ u x, (∃ e, (onClose env s room).room.peers.get x = some e ∧ e.ws = u) ↔
        u ≠ s ∧ ∃ e, room.peers.get x = some e ∧ e.ws = u)
      (hs : (onClose env s room).room.sockets = room.sockets.delete s) :
      Inverse (onClose env s room).room ∧ (onClose env s room).room.sockets.get s = none := by
    rw [hs]
    refine ⟨fun u x => ?_, OrdMap.get_delete_self ..⟩
    rw [hp, hs, OrdMap.get_delete, h u x]
    by_cases hu : s = u
    · simp [hu]
    · simp [hu, Ne.symm hu]
  rcases onClose_maps env s room with ⟨x, hx, hp, hcases⟩ | ⟨hnone, hp, hs⟩
  · rcases hcases with ⟨hok, hs⟩ | ⟨hok, hs⟩
    · refine ⟨fun _ _ _ => hok, fun _ => hkeep (fun u y => ?_) hs⟩
      rw [hp, OrdMap.get_delete]
      by_cases hxy : x = y
      · subst hxy
        obtain ⟨hsx, e, he, hws⟩ := hx
        simp only [if_true, he, Option.some.injEq, exists_eq_left', hws, reduceCtorEq,
          false_and, exists_false, false_iff, not_and]
        exact fun hne hc => hne hc.symm
      · simp only [hxy, if_false, iff_and_self]
        rintro ⟨e, he, hws⟩ rfl
        exact hxy (h.single u x y hx.2 ⟨e, he, hws⟩)
    · rw [hs]
      refine ⟨fun hc => ?_, fun hc => absurd (hc x hx.1) hok⟩
      rw [hx.1] at hc
      exact absurd hc.2 (by simp)
  · have hfree : room.sockets.get s = none := by
      cases hx : room.sockets.get s with
      | none => rfl
      | some x => exact absurd ((h.registered_iff s x).2 hx) (hnone x)
    refine ⟨fun _ x hx => absurd (hfree.symm.trans hx) (by simp),
      fun _ => hkeep (fun u x => ?_) hs⟩
    rw [hp, iff_and_self, h u x]
    rintro hx rfl
    rw [hfree] at hx
    exact absurd hx (by simp)

/-- **The step lemma.**  From a room in order an event leads to a room in order
exactly if it meets the condition. -/
theorem step_consistent_iff {w : World Ws} (h : Consistent w) (a : Action Ws) :
    Consistent (step w a) ↔ KeepsOneIdentity w a := by
  obtain ⟨hinv, hcl⟩ := consistent_iff.1 h
  cases a with
  | message s env parsed =>
      by_cases hs : s ∈ w.closed
      · simp [step, KeepsOneIdentity, hs, h]
      · simp only [step, KeepsOneIdentity, hs, if_false, not_false_eq_true, forall_const]
        rw [consistent_iff]
        have hmaps := onMessage_maps env s parsed w.room
        cases hj : joinAccepted env s parsed w.room with
        | none =>
            rw [hj] at hmaps
            simp only [Inverse.congr hmaps.1 hmaps.2, hmaps.2, reduceCtorEq, false_implies,
              implies_true, iff_true]
            exact ⟨hinv, hcl⟩
        | some x =>
            rw [hj] at hmaps
            obtain ⟨j, hj⟩ := hmaps
            simp only [hj, inverse_registered_iff hinv, Option.some.injEq]
            constructor
            · rintro ⟨hone, -⟩ _ y rfl hy
              exact hone y hy
            · intro hone
              refine ⟨fun y hy => hone x y rfl hy, fun u hu => ?_⟩
              have hsu : s ≠ u := fun hc => hs (hc ▸ hu)
              rw [get_sockets_registered, if_neg hsu]
              split
              · rfl
              · exact hcl u hu
  | close s env =>
      by_cases hs : s ∈ w.closed
      · simp [step, KeepsOneIdentity, hs, h]
      · simp only [step, KeepsOneIdentity, hs, if_false, not_false_eq_true, forall_const]
        rw [consistent_iff, ← inverse_onClose_iff hinv env s]
        constructor
        · rintro ⟨hinv', hcl'⟩
          exact ⟨hinv', hcl' s (List.mem_cons_self ..)⟩
        · rintro ⟨hinv', hfree⟩
          refine ⟨hinv', fun u hu => ?_⟩
          rcases List.mem_cons.1 hu with rfl | hu
          · exact hfree
          · have hus : s ≠ u := fun hc => hs (hc ▸ hu)
            rw [get_sockets_onClose (Ne.symm hus), hcl u hu]

/-! ## Runs -/

theorem consistent_start : Consistent (World.start : World Ws) := by
  rw [consistent_iff]
  exact ⟨fun s x => by simp [World.start, SignalRoom.new], fun s hs => by simp [World.start] at hs⟩

/-- **Registrations stay in order.**  The room is in order after every prefix of a
run exactly if every event of the run meets the condition. -/
theorem run_consistent_iff (as : List (Action Ws)) :
    (∀ bs, bs <+: as → Consistent (Runs.run step World.start bs)) ↔
      Runs.StepsMeet step KeepsOneIdentity World.start as := by
  have hstep (w : World Ws) (a : Action Ws) (h : Consistent w) :
      Consistent (step w a) ↔ KeepsOneIdentity w a := step_consistent_iff h a
  exact Runs.run_invariant_iff step hstep consistent_start

/-! ## A socket with two identities -/

/-- One socket joins under two identities, one after the other, and is closed. -/
def ghostEvents : List (Action Nat) :=
  [Sample.join 1 Sample.first, Sample.join 1 Sample.second, .close 1 Sample.env]

/-- The first identity outlives the socket: it stays in `peers` and refers to a
socket that holds no identity and is closed. -/
theorem ghost_peer :
    let w := Runs.run step World.start ghostEvents
    (w.room.peers.get Sample.first).map PeerEntry.ws = some 1 ∧ 1 ∈ w.closed ∧
      w.room.sockets.get 1 = none ∧ ¬ Consistent w := by
  intro w
  have hp : (w.room.peers.get Sample.first).map PeerEntry.ws = some 1 := by decide +kernel
  have hc : 1 ∈ w.closed := by decide +kernel
  refine ⟨hp, hc, by decide +kernel, fun h => ?_⟩
  obtain ⟨e, he, hws⟩ := Option.map_eq_some_iff.1 hp
  exact h.closed 1 hc Sample.first e he hws

end Signal
end FolkAround
