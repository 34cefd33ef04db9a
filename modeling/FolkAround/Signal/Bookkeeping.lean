import FolkAround.Signal.RateLimit

/-!
# The bookkeeping of the rate limit

A counter is kept under an identity, and the clean-up after a socket asks for one kept
under the socket.  So a counter stays for good once the identity has lost its socket.

* `Released` — every counter belongs to an identity some open socket holds.
* `LeavesNoCount` — the condition on an event: an identity that loses its socket has no
  counter.
* `step_released_iff` — for one event the condition is exact.
* `run_released_iff` — and so it is for whole runs.
-/

namespace FolkAround
namespace Signal

variable {Ws : Type} [DecidableEq Ws]

/-! ## The invariant and its condition -/

/-- Every counter is kept under an identity that a socket holds which is not closed. -/
def Released (w : World Ws) : Prop :=
  ∀ k e, w.room.rateLimit.get k = some e →
    ∃ s x, k = .identity x ∧ s ∉ w.closed ∧ w.room.sockets.get s = some x

/-- What the socket holds, nothing is counted under. -/
def Uncounted (w : World Ws) (s : Ws) (y : Identity) : Prop :=
  s ∉ w.closed → w.room.sockets.get s = some y → w.room.rateLimit.get (.identity y) = none

/-- A socket that loses an identity leaves no counter behind: one that is closed, one that
joins under another identity, and one that is replaced under another than it holds. -/
def LeavesNoCount (w : World Ws) : Action Ws → Prop
  | .message s env parsed => s ∉ w.closed → ∀ x, joinAccepted env s parsed w.room = some x →
      ∀ u y, u = s ∨ replaced s x w.room = some u → y ≠ x → Uncounted w u y
  | .close s _ => ∀ y, Uncounted w s y

/-- Two open sockets do not hold one identity. -/
theorem Speaks.unique {w : World Ws} (h : Speaks w) {s u : Ws} {y : Identity} (hs : s ∉ w.closed)
    (hu : u ∉ w.closed) (hsy : w.room.sockets.get s = some y)
    (huy : w.room.sockets.get u = some y) : s = u := by
  have hlast := h.socket hs hsy
  rw [h.socket hu huy] at hlast
  exact (Option.some.inj hlast).symm

/-! ## One event -/

/-- An accepted join. -/
theorem released_registered_iff {w w' : World Ws} (hspeaks : Speaks w) (h : Released w) {s : Ws}
    (hs : s ∉ w.closed) {x : Identity} {j : Int} (hroom : w'.room = registered s x j w.room)
    (hclosed : w'.closed = w.closed) :
    Released w' ↔ ∀ u y, u = s ∨ replaced s x w.room = some u → y ≠ x → Uncounted w u y := by
  rw [Released, hroom, hclosed]
  constructor
  · intro h' u y hu hyx hopen huy
    rw [Option.eq_none_iff_forall_ne_some]
    intro e he
    obtain ⟨s', _, ⟨⟩, hs', hy⟩ := h' _ e he
    rcases sockets_registered_cases hy with ⟨-, hy⟩ | ⟨hne, hold, hr⟩
    · exact hyx hy
    · obtain rfl : u = s' := hspeaks.unique hopen hs' huy hold
      rcases hu with hu | hu
      · exact hne hu
      · exact hr hu
  · intro hok k e he
    obtain ⟨u, y, rfl, hopen, huy⟩ := h k e he
    by_cases hyx : y = x
    · subst hyx
      exact ⟨s, y, rfl, hs, by rw [get_sockets_registered, if_pos rfl]⟩
    · have hkept : ¬ (u = s ∨ replaced s x w.room = some u) := by
        intro hu
        have hnone : (registered s x j w.room).rateLimit.get (.identity y) = none :=
          hok u y hu hyx hopen huy
        rw [hnone] at he
        exact absurd he (by simp)
      rw [not_or] at hkept
      refine ⟨u, y, rfl, hopen, ?_⟩
      rw [get_sockets_registered, if_neg (Ne.symm hkept.1), if_neg hkept.2, huy]

/-- A message that is no accepted join. -/
theorem released_message {w w' : World Ws} (h : Released w) {s : Ws} (hs : s ∉ w.closed)
    (env : Env Ws) (parsed : Option Value) (hnone : joinAccepted env s parsed w.room = none)
    (hroom : w'.room = (onMessage env s parsed w.room).room) (hclosed : w'.closed = w.closed) :
    Released w' := by
  have hmaps := onMessage_maps env s parsed w.room
  rw [hnone] at hmaps
  intro k e he
  rw [hroom] at he ⊢
  rw [hclosed, hmaps.2]
  cases hcount : countedAs s parsed w.room with
  | none =>
      rw [(onMessage_not_counted env hcount).1] at he
      exact h k e he
  | some x =>
      obtain ⟨-, -, -, hx, -⟩ := countedAs_eq_some hcount
      rw [(onMessage_counted env hcount).1, counted, OrdMap.get_set] at he
      by_cases hk : RateKey.identity x = k
      · exact ⟨s, x, hk.symm, hs, hx⟩
      · rw [if_neg hk] at he
        exact h k e he

/-- A close. -/
theorem released_onClose_iff {w w' : World Ws} (hspeaks : Speaks w) (h : Released w) {s : Ws}
    (hs : s ∉ w.closed) (env : Env Ws) (hroom : w'.room = (onClose env s w.room).room)
    (hclosed : w'.closed = s :: w.closed) : Released w' ↔ ∀ y, Uncounted w s y := by
  rw [Released, hroom, hclosed]
  constructor
  · intro h' y _ hsy
    rw [Option.eq_none_iff_forall_ne_some]
    intro e he
    rw [← get_rateLimit_onClose env s] at he
    obtain ⟨u, _, ⟨⟩, hu, huy⟩ := h' _ e he
    rw [List.mem_cons, not_or] at hu
    rw [get_sockets_onClose hu.1] at huy
    exact hu.1 (hspeaks.unique hu.2 hs huy hsy)
  · intro hok k e he
    obtain ⟨u, y, rfl, hu, huy⟩ := h k e (get_of_get_rateLimit_onClose he)
    have hus : u ≠ s := by
      rintro rfl
      rw [get_rateLimit_onClose, hok y hu huy] at he
      exact absurd he (by simp)
    refine ⟨u, y, rfl, ?_, ?_⟩
    · rw [List.mem_cons, not_or]
      exact ⟨hus, hu⟩
    · rw [get_sockets_onClose hus, huy]

/-- **The step lemma.**  Where every counter has a socket, an event keeps it so exactly if
it meets the condition. -/
theorem step_released_iff {w : World Ws} (hspeaks : Speaks w) (h : Released w) (a : Action Ws) :
    Released (step w a) ↔ LeavesNoCount w a := by
  cases a with
  | message s env parsed =>
      by_cases hs : s ∈ w.closed
      · simp [step, LeavesNoCount, hs, h]
      · have hmaps := onMessage_maps env s parsed w.room
        simp only [LeavesNoCount, hs, not_false_eq_true, forall_const]
        cases hj : joinAccepted env s parsed w.room with
        | none =>
            refine iff_of_true ?_ (by simp)
            apply released_message h hs env parsed hj
            · rw [step, if_neg hs]
            · rw [step, if_neg hs]
        | some x =>
            rw [hj] at hmaps
            obtain ⟨j, hroom⟩ := hmaps
            simp only [Option.some.injEq, forall_eq']
            apply released_registered_iff hspeaks h hs
            · rw [step, if_neg hs]
              exact hroom
            · rw [step, if_neg hs]
  | close s env =>
      by_cases hs : s ∈ w.closed
      · simp [step, LeavesNoCount, Uncounted, hs, h]
      · simp only [LeavesNoCount]
        apply released_onClose_iff hspeaks h hs env
        · rw [step, if_neg hs]
        · rw [step, if_neg hs]

/-! ## Runs -/

theorem released_start : Released (World.start : World Ws) := by
  intro k e he
  simp [World.start, SignalRoom.new] at he

/-- **Counters are released.**  After every prefix of a run every counter belongs to an
identity that an open socket holds, exactly if every event of the run meets the
condition. -/
theorem run_released_iff (as : List (Action Ws)) :
    (∀ bs, bs <+: as → Released (Runs.run step World.start bs)) ↔
      Runs.StepsMeet step LeavesNoCount World.start as := by
  have hstep : ∀ (w : World Ws) a, Speaks w ∧ Released w →
      (Speaks (step w a) ∧ Released (step w a) ↔ LeavesNoCount w a) := by
    rintro w a ⟨hspeaks, h⟩
    rw [step_released_iff hspeaks h]
    exact and_iff_right (speaks_step w a hspeaks)
  rw [← Runs.run_invariant_iff step hstep ⟨speaks_start, released_start⟩]
  constructor
  · intro h bs hbs
    exact ⟨speaks_run bs, h bs hbs⟩
  · intro h bs hbs
    exact (h bs hbs).2

/-- A socket joins, sends one relay and is closed. -/
def leakEvents : List (Action Nat) := Sample.burst 1 Sample.first 1 ++ [.close 1 Sample.env]

/-- The counter of its identity is kept, though no socket is left in the room. -/
theorem count_outlives_socket :
    let w := Runs.run step World.start leakEvents
    (w.room.rateLimit.get (.identity Sample.first)).isSome ∧ w.room.sockets.keys = [] ∧
      ¬ Released w := by
  intro w
  have hcount : (w.room.rateLimit.get (.identity Sample.first)).isSome := by decide +kernel
  have hfree : w.room.sockets.keys = [] := by decide +kernel
  refine ⟨hcount, hfree, ?_⟩
  intro h
  obtain ⟨e, he⟩ := Option.isSome_iff_exists.1 hcount
  obtain ⟨s, x, -, -, hx⟩ := h _ e he
  have hkey : s ∈ w.room.sockets.keys := OrdMap.mem_keys_iff.2 ⟨x, hx⟩
  rw [hfree] at hkey
  exact absurd hkey (by simp)

end Signal
end FolkAround
