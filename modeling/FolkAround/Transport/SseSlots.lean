import Mathlib.Data.Fintype.Card
import FolkAround.Lib.Interleaving
import FolkAround.Lib.Slots
import FolkAround.Transport.Http

/-!
# The slots of the event streams

Every client that asks for the event stream is served by a thread of its own.  The
threads share one counter, and between two of its steps a thread may be made to wait for
any number of steps of the others.

* `acquireSseSlot`, `releaseSseSlot`, `sendSse` — one thread, as a program on the counter.
* `counter` — the counter, a machine word that wraps around.
* `afterAcquire`, `afterStream`, `retreat` — what is left of a thread on its way.
* `HoldsSlot`, `Overshoots` — `acquire_sse_slot` has returned `true` and the slot is not given
  back yet; or it is about to take back its one and return `false`.
* `rest_cases` — there is nothing else that a thread can be at.
* `slots` — what a moment of a run is as a state of `Slots`; `step_slots` says that every
  step of the threads is a step there, or none, and `reaches_slots` that runs are runs.
* `sse_slots` — the limit holds under every schedule.
-/

namespace FolkAround
namespace Transport

open Effects

/-! ## One thread -/

/-- What a thread does that others may notice, or that its client sees. -/
inductive SseEffect where
  /-- `SSE_CLIENTS.fetch_add(1)` -/
  | fetchAdd
  /-- `SSE_CLIENTS.fetch_sub(1)` -/
  | fetchSub
  | sendResponse (answer : HttpResponse)
  /-- The stream itself, until the client is gone. -/
  | sendSseInner

/-- The atomic operations answer with what the counter was before. -/
def SseAnswer : SseEffect → Type
  | .fetchAdd => UInt32
  | .fetchSub => UInt32
  | .sendResponse _ => Except TransportError Unit
  | .sendSseInner => Except TransportError Unit

abbrev SseProg := Prog SseEffect SseAnswer

def fetchAdd : SseProg UInt32 := Prog.effect SseEffect.fetchAdd

def fetchSub : SseProg UInt32 := Prog.effect SseEffect.fetchSub

def sendResponse (answer : HttpResponse) : SseProg (Except TransportError Unit) :=
  Prog.effect (SseEffect.sendResponse answer)

def sendSseInner : SseProg (Except TransportError Unit) := Prog.effect SseEffect.sendSseInner

def acquireSseSlot : SseProg Bool := do
  let prev ← fetchAdd
  if maxSseClients.toUInt32 ≤ prev then
    let _ ← fetchSub
    pure false
  else
    pure true

def releaseSseSlot : SseProg Unit := do
  let _ ← fetchSub
  pure ()

def sendSse : SseProg (Except TransportError Unit) := do
  if !(← acquireSseSlot) then
    sendResponse tooManySseClients
  else
    let result ← sendSseInner
    releaseSseSlot
    pure result

/-! ## The counter -/

/-- The shared counter, which wraps around. -/
def counter : Effects.World SseEffect SseAnswer UInt32 := fun s e r s' =>
  match e, r with
  | .fetchAdd, prev => prev = s ∧ s' = s + 1
  | .fetchSub, prev => prev = s ∧ s' = s - 1
  | .sendResponse _, _ => s' = s
  | .sendSseInner, _ => s' = s

/-- The counter does not wrap around where there is something to take back. -/
theorem toNat_sub_one {n : UInt32} (hpos : 0 < n.toNat) : (n - 1).toNat = n.toNat - 1 := by
  have hlt := n.toNat_lt
  rw [UInt32.toNat_sub]
  show (2 ^ 32 - 1 + n.toNat) % 2 ^ 32 = _
  omega

abbrev SsePool (ι : Type) := Pool ι SseEffect SseAnswer UInt32 (Except TransportError Unit)

/-- No stream is open, and the threads are about to start. -/
def SsePool.start (ι : Type) : SsePool ι := Pool.start sendSse 0

/-! ## Where a thread is -/

/-- What a thread does when `acquireSseSlot` has returned. -/
def afterAcquire (taken : Bool) : SseProg (Except TransportError Unit) :=
  if !taken then
    sendResponse tooManySseClients
  else do
    let result ← sendSseInner
    releaseSseSlot
    pure result

/-- What it does when its stream has ended. -/
def afterStream (result : Except TransportError Unit) : SseProg (Except TransportError Unit) := do
  releaseSseSlot
  pure result

/-- What it does when it has added and found the counter at the limit. -/
def retreat : SseProg (Except TransportError Unit) := do
  let _ ← fetchSub
  afterAcquire false

/-- The thread was given a slot, and has not given it back yet. -/
inductive HoldsSlot : SseProg (Except TransportError Unit) → Prop where
  /-- `acquire_sse_slot` has returned `true`. -/
  | granted : HoldsSlot (afterAcquire true)
  /-- The stream has ended, and `release_sse_slot` comes next. -/
  | streamed (result : Except TransportError Unit) : HoldsSlot (afterStream result)

/-- The thread is being refused, and has not taken back its one yet. -/
inductive Overshoots : SseProg (Except TransportError Unit) → Prop where
  | refused : Overshoots retreat

theorem sendSse_eq : sendSse = acquireSseSlot >>= afterAcquire := rfl

theorem afterAcquire_true : afterAcquire true = .perform .sendSseInner afterStream := rfl

theorem afterAcquire_false :
    afterAcquire false = .perform (.sendResponse tooManySseClients) .pure := rfl

theorem retreat_eq : retreat = .perform .fetchSub fun _ => afterAcquire false := rfl

/-- What a thread does when it has added, by what the counter was before. -/
def afterAdd (prev : UInt32) : SseProg (Except TransportError Unit) :=
  if maxSseClients.toUInt32 ≤ prev then retreat else afterAcquire true

theorem afterAdd_of_le {prev : UInt32} (h : maxSseClients.toUInt32 ≤ prev) :
    afterAdd prev = retreat := if_pos h

theorem afterAdd_of_lt {prev : UInt32} (h : ¬ maxSseClients.toUInt32 ≤ prev) :
    afterAdd prev = afterAcquire true := if_neg h

theorem sendSse_eq_perform : sendSse = .perform .fetchAdd afterAdd := by
  have hadd : ∀ prev : UInt32, ((if maxSseClients.toUInt32 ≤ prev then do
      let _ ← fetchSub
      pure false
    else pure true : SseProg Bool) >>= afterAcquire) = afterAdd prev := by
    intro prev
    by_cases hfull : maxSseClients.toUInt32 ≤ prev
    · rw [if_pos hfull, afterAdd_of_le hfull]
      rfl
    · rw [if_neg hfull, afterAdd_of_lt hfull]
      rfl
  rw [sendSse_eq]
  exact congrArg (Prog.perform SseEffect.fetchAdd) (funext hadd)

section

variable {x : SseProg (Except TransportError Unit)}

/-- **Where a thread can be.**  It has not begun, has a slot, is about to give it back or to take
back its one, was refused, or has ended. -/
theorem rest_cases (h : sendSse.Rest x) :
    x = sendSse ∨ x = afterAcquire true ∨ (∃ result, x = afterStream result) ∨ x = retreat ∨
      x = afterAcquire false ∨ ∃ result, x = .pure result := by
  have hpure {result} (h : (Prog.pure result : SseProg _).Rest x) : x = .pure result := by
    cases h
    rfl
  rw [sendSse_eq_perform] at h ⊢
  cases h with
  | refl => exact .inl rfl
  | answer prev h =>
      right
      by_cases hfull : maxSseClients.toUInt32 ≤ prev
      · rw [afterAdd_of_le hfull, retreat_eq] at h
        cases h with
        | refl => exact .inr (.inr (.inl rfl))
        | answer prev' h =>
            rw [afterAcquire_false] at h
            cases h with
            | refl => exact .inr (.inr (.inr (.inl rfl)))
            | answer result h => exact .inr (.inr (.inr (.inr ⟨_, hpure h⟩)))
      · rw [afterAdd_of_lt hfull, afterAcquire_true] at h
        cases h with
        | refl => exact .inl rfl
        | answer result h =>
            have h : (Prog.perform SseEffect.fetchSub fun _ => .pure result : SseProg _).Rest x := h
            cases h with
            | refl => exact .inr (.inl ⟨result, rfl⟩)
            | answer prev' h => exact .inr (.inr (.inr (.inr ⟨_, hpure h⟩)))

/-- How a thread stands to the slots, by what it does next: after taking back its one it ends,
or tells its client that it was refused. -/
def standing : SseProg (Except TransportError Unit) → Slots.Stage
  | .pure _ => .gone
  | .perform .fetchAdd _ => .outside
  | .perform .sendSseInner _ => .inside
  | .perform (.sendResponse _) _ => .gone
  | .perform .fetchSub k =>
    match k (0 : UInt32) with
    | .pure _ => .inside
    | .perform _ _ => .refused

theorem standing_sendSse : standing sendSse = .outside := by
  rw [sendSse_eq_perform]
  rfl

theorem HoldsSlot.standing_eq (h : HoldsSlot x) : standing x = .inside := by
  cases h with
  | granted => rfl
  | streamed result => rfl

theorem Overshoots.standing_eq (h : Overshoots x) : standing x = .refused := by
  cases h with
  | refused => rfl

theorem standing_of_fetchSub {k : UInt32 → SseProg (Except TransportError Unit)} :
    standing (.perform .fetchSub k) = .inside ∨ standing (.perform .fetchSub k) = .refused := by
  cases hk : k (0 : UInt32) with
  | pure result => exact .inl (by simp only [standing, hk])
  | perform e k' => exact .inr (by simp only [standing, hk])

theorem holdsSlot_iff (h : sendSse.Rest x) : HoldsSlot x ↔ standing x = .inside := by
  refine ⟨HoldsSlot.standing_eq, fun hin => ?_⟩
  rcases rest_cases h with rfl | rfl | ⟨result, rfl⟩ | rfl | rfl | ⟨result, rfl⟩
  · exact absurd (standing_sendSse.symm.trans hin) (by decide)
  · exact .granted
  · exact .streamed result
  · exact absurd hin (by decide)
  · exact absurd hin (by decide)
  · exact absurd hin (by simp [standing])

theorem overshoots_iff (h : sendSse.Rest x) : Overshoots x ↔ standing x = .refused := by
  refine ⟨Overshoots.standing_eq, fun hrefused => ?_⟩
  rcases rest_cases h with rfl | rfl | ⟨result, rfl⟩ | rfl | rfl | ⟨result, rfl⟩
  · exact absurd (standing_sendSse.symm.trans hrefused) (by decide)
  · exact absurd hrefused (by decide)
  · exact absurd ((HoldsSlot.streamed result).standing_eq.symm.trans hrefused) (by decide)
  · exact .refused
  · exact absurd hrefused (by decide)
  · exact absurd hrefused (by simp [standing])

/-- **What an effect of a thread does to its standing**, whatever it is answered. -/
theorem standing_after {e : SseEffect} {k : SseAnswer e → SseProg (Except TransportError Unit)}
    (h : sendSse.Rest (.perform e k)) (r : SseAnswer e) :
    standing (k r) = match e, r with
      | .fetchAdd, prev => if maxSseClients.toUInt32 ≤ prev then .refused else .inside
      | .fetchSub, _ => .gone
      | .sendResponse _, _ => .gone
      | .sendSseInner, _ => .inside := by
  rcases rest_cases h with hx | hx | ⟨result, hx⟩ | hx | hx | ⟨result, hx⟩
  · rw [sendSse_eq_perform] at hx
    cases hx
    by_cases hfull : maxSseClients.toUInt32 ≤ r
    · exact (congrArg standing (afterAdd_of_le hfull)).trans (if_pos hfull).symm
    · exact (congrArg standing (afterAdd_of_lt hfull)).trans (if_neg hfull).symm
  · cases hx
    rfl
  · cases hx
    rfl
  · cases hx
    rfl
  · cases hx
    rfl
  · cases hx

end

/-! ## All threads -/

section

variable {ι : Type} [DecidableEq ι] {c c' : SsePool ι}

/-- How each thread stands to the slots. -/
def stages (c : SsePool ι) (i : ι) : Slots.Stage := standing (c.progs i)

def slots (c : SsePool ι) : Slots.State ι := ⟨stages c, c.seen.1.toNat⟩

omit [DecidableEq ι] in
theorem slots_start : slots (SsePool.start ι) = Slots.State.start :=
  congrArg (Slots.State.mk · 0) (funext fun _ => standing_sendSse)

theorem rest_of_reaches (h : Reaches counter (SsePool.start ι) c) (i : ι) :
    sendSse.Rest (c.progs i) := h.rest i

theorem stages_next (x : SseProg (Except TransportError Unit)) (i : ι) (e : SseEffect)
    (r : SseAnswer e) (n : UInt32) :
    stages ⟨Function.update c.progs i x, c.seen.next i e r n⟩ =
      Function.update (stages c) i (standing x) := Function.comp_update standing c.progs i x

/-- What an effect makes of the slots: its thread moves on, and the counter changes. -/
theorem slots_next (x : SseProg (Except TransportError Unit)) (i : ι) (e : SseEffect)
    (r : SseAnswer e) (n : UInt32) :
    slots ⟨Function.update c.progs i x, c.seen.next i e r n⟩ =
      (slots c).move i (standing x) n.toNat :=
  congrArg (Slots.State.mk · n.toNat) (stages_next x i e r n)

/-- To stay at the same stage, with the same counter, is to change nothing. -/
theorem move_stage (i : ι) : (slots c).move i (stages c i) c.seen.1.toNat = slots c := by
  show Slots.State.mk (Function.update (stages c) i (stages c i)) _ = _
  rw [Function.update_eq_self]
  rfl

/-- A thread that is about to add can do so. -/
theorem step_fetchAdd {i : ι} {k : UInt32 → SseProg (Except TransportError Unit)}
    (hi : c.progs i = .perform .fetchAdd k) :
    Step counter c ⟨Function.update c.progs i (k c.seen.1),
      c.seen.next i .fetchAdd c.seen.1 (c.seen.1 + 1)⟩ :=
  .perform _ hi ⟨rfl, rfl⟩

variable [Fintype ι]

open Classical in
/-- The threads that hold a slot. -/
noncomputable def holders (c : SsePool ι) : Finset ι :=
  Finset.univ.filter fun i => HoldsSlot (c.progs i)

open Classical in
/-- The threads that are being refused and have not yet taken back their one. -/
noncomputable def overshooting (c : SsePool ι) : Finset ι :=
  Finset.univ.filter fun i => Overshoots (c.progs i)

omit [DecidableEq ι] in
@[simp] theorem mem_holders {i : ι} : i ∈ holders c ↔ HoldsSlot (c.progs i) := by
  simp [holders]

omit [DecidableEq ι] in
@[simp] theorem mem_overshooting {i : ι} : i ∈ overshooting c ↔ Overshoots (c.progs i) := by
  simp [overshooting]

theorem holders_eq (h : Reaches counter (SsePool.start ι) c) :
    holders c = (slots c).users .inside := by
  ext i
  rw [mem_holders, Slots.mem_users]
  exact holdsSlot_iff (rest_of_reaches h i)

theorem overshooting_eq (h : Reaches counter (SsePool.start ι) c) :
    overshooting c = (slots c).users .refused := by
  ext i
  rw [mem_overshooting, Slots.mem_users]
  exact overshoots_iff (rest_of_reaches h i)

/-- Who sends the stream holds a slot. -/
theorem holdsSlot_of_streaming {x : SseProg (Except TransportError Unit)} (h : sendSse.Rest x)
    {k : Except TransportError Unit → SseProg (Except TransportError Unit)}
    (hx : x = .perform .sendSseInner k) : HoldsSlot x := by
  rw [holdsSlot_iff h, hx]
  rfl

/-- Nor does it wrap around at the top, as there are not so many threads. -/
theorem toNat_counter_add (hfew : Fintype.card ι < 2 ^ 31)
    (hs : Slots.Inv maxSseClients (slots c)) : (c.seen.1 + 1).toNat = c.seen.1.toNat + 1 := by
  have hle : c.seen.1.toNat ≤ Fintype.card ι := hs.count_le
  rw [UInt32.toNat_add]
  show (c.seen.1.toNat + 1) % 2 ^ 32 = _
  omega

/-- **Every step of the threads is a step of the slots, or none.** -/
theorem step_slots (hfew : Fintype.card ι < 2 ^ 31) (hc : ∀ i, sendSse.Rest (c.progs i))
    (hs : Slots.Inv maxSseClients (slots c)) (h : Step counter c c') :
    slots c' = slots c ∨ Slots.Step maxSseClients (slots c) (slots c') := by
  obtain ⟨r, hi, hr⟩ := h
  rename_i i e k n
  have hrest := hc i
  rw [hi] at hrest
  have hstage : stages c i = standing (.perform e k) := congrArg standing hi
  rw [slots_next, standing_after hrest]
  cases e with
  | fetchAdd =>
      obtain ⟨rfl, rfl⟩ := hr
      right
      rw [toNat_counter_add hfew hs]
      have hlimit : maxSseClients.toUInt32 ≤ c.seen.1 ↔ maxSseClients ≤ c.seen.1.toNat :=
        UInt32.le_iff_toNat_le
      by_cases hfull : maxSseClients.toUInt32 ≤ c.seen.1
      · simp only [if_pos hfull]
        exact .refuse i hstage (hlimit.1 hfull)
      · simp only [if_neg hfull]
        exact .enter i hstage (Nat.lt_of_not_le fun hle => hfull (hlimit.2 hle))
  | fetchSub =>
      obtain ⟨rfl, rfl⟩ := hr
      right
      have hcases : stages c i = .inside ∨ stages c i = .refused := hstage ▸ standing_of_fetchSub
      rw [toNat_sub_one (hs.count_pos hcases)]
      rcases hcases with hin | hrefused
      · exact .leave i hin
      · exact .undo i hrefused
  | sendResponse answer =>
      left
      cases hr
      have hsame := move_stage (c := c) i
      rwa [hstage] at hsame
  | sendSseInner =>
      left
      cases hr
      have hsame := move_stage (c := c) i
      rwa [hstage] at hsame

/-- **A run of the threads is a run of the slots.** -/
theorem reaches_slots (hfew : Fintype.card ι < 2 ^ 31) (h : Reaches counter (SsePool.start ι) c) :
    Slots.Reaches maxSseClients Slots.State.start (slots c) := by
  induction h with
  | refl =>
      rw [slots_start]
      exact .refl
  | tail hreach hstep ih =>
      have hs := Slots.reaches_inv ih Slots.inv_start
      rcases step_slots hfew (rest_of_reaches hreach) hs hstep with hsame | hmove
      · rw [hsame]
        exact ih
      · exact ih.tail hmove

/-- The invariant of the slots holds at every moment. -/
theorem reaches_slots_inv (hfew : Fintype.card ι < 2 ^ 31)
    (h : Reaches counter (SsePool.start ι) c) : Slots.Inv maxSseClients (slots c) :=
  Slots.reaches_inv (reaches_slots hfew h) Slots.inv_start

theorem card_holders_le (hfew : Fintype.card ι < 2 ^ 31)
    (h : Reaches counter (SsePool.start ι) c) : (holders c).card ≤ maxSseClients := by
  rw [holders_eq h]
  exact (reaches_slots_inv hfew h).capped

theorem counter_eq_card (hfew : Fintype.card ι < 2 ^ 31)
    (h : Reaches counter (SsePool.start ι) c) :
    c.seen.1.toNat = (holders c).card + (overshooting c).card := by
  rw [holders_eq h, overshooting_eq h]
  exact (reaches_slots_inv hfew h).count

/-- The counter is never taken below zero. -/
theorem fetchSub_pos (hfew : Fintype.card ι < 2 ^ 31)
    (h : Reaches counter (SsePool.start ι) c) {i : ι} {prev : UInt32}
    (hevent : (⟨i, .fetchSub, prev⟩ : Event ι SseEffect SseAnswer) ∈ c.seen.2) : prev ≠ 0 := by
  induction h with
  | refl => exact absurd hevent List.not_mem_nil
  | tail hreach hstep ih =>
      have hs := reaches_slots_inv hfew hreach
      obtain ⟨r, hj, hr⟩ := hstep
      rename_i c j e k n
      rcases List.mem_append.1 hevent with hold | hnew
      · exact ih hold
      · cases List.mem_singleton.1 hnew
        have hstage : stages c i = standing (.perform .fetchSub k) := congrArg standing hj
        have hpos : 0 < c.seen.1.toNat := hs.count_pos (hstage ▸ standing_of_fetchSub)
        intro hzero
        rw [← hr.1, hzero] at hpos
        exact absurd hpos (by decide)

/-- When all threads have ended there is nobody left in the counter. -/
theorem counter_eq_zero (hfew : Fintype.card ι < 2 ^ 31)
    (h : Reaches counter (SsePool.start ι) c) (hended : ∀ i, ∃ a, c.progs i = .pure a) :
    c.seen.1 = 0 := by
  have hgone : ∀ i, stages c i = .gone := by
    intro i
    obtain ⟨a, ha⟩ := hended i
    rw [stages, ha]
    rfl
  have hnone : ∀ x, x ≠ Slots.Stage.gone → (slots c).users x = ∅ := by
    intro x hx
    rw [Finset.eq_empty_iff_forall_notMem]
    intro i hi
    exact hx ((Slots.mem_users.1 hi).symm.trans (hgone i))
  have hcount := (reaches_slots_inv hfew h).count
  rw [hnone .inside (by decide), hnone .refused (by decide)] at hcount
  exact UInt32.toNat_inj.1 hcount

/-- **The slots under every schedule.**  However the atomic steps of the threads are
interleaved, at most `maxSseClients` of them hold a slot, among them every one that sends the
stream and none that was refused; the counter is the number of these and of the threads that
are being refused and have not yet taken back their one; no subtraction finds it at zero; and
when all threads have ended it is where it began. -/
theorem sse_slots (hfew : Fintype.card ι < 2 ^ 31)
    (h : Reaches counter (SsePool.start ι) c) :
    (holders c).card ≤ maxSseClients ∧
      (∀ i k, c.progs i = .perform .sendSseInner k → i ∈ holders c) ∧
      (∀ i, c.progs i = afterAcquire false → i ∉ holders c ∧ i ∉ overshooting c) ∧
      c.seen.1.toNat = (holders c).card + (overshooting c).card ∧
      (∀ i (prev : UInt32), (⟨i, .fetchSub, prev⟩ : Event ι SseEffect SseAnswer) ∈ c.seen.2 →
        prev ≠ 0) ∧
      ((∀ i, ∃ a, c.progs i = .pure a) → c.seen.1 = (SsePool.start ι).seen.1) := by
  refine ⟨card_holders_le hfew h, ?_, ?_, counter_eq_card hfew h, ?_, ?_⟩
  · intro i k hi
    exact mem_holders.2 (holdsSlot_of_streaming (rest_of_reaches h i) hi)
  · intro i hi
    have hgone : standing (c.progs i) = .gone := by
      rw [hi]
      rfl
    rw [mem_holders, mem_overshooting]
    refine ⟨fun hholds => ?_, fun hovershoots => ?_⟩
    · exact absurd (hgone.symm.trans hholds.standing_eq) (by decide)
    · exact absurd (hgone.symm.trans hovershoots.standing_eq) (by decide)
  · intro i prev hevent
    exact fetchSub_pos hfew h hevent
  · intro hended
    exact counter_eq_zero hfew h hended

end

/-- Two threads, the first of which has been given a slot. -/
theorem sse_slots_two : ∃ c : SsePool (Fin 2), Reaches counter (SsePool.start (Fin 2)) c ∧
    c.progs 0 = afterAcquire true ∧ 0 ∈ holders c ∧ (holders c).card ≤ maxSseClients ∧
      c.seen.1.toNat = (holders c).card + (overshooting c).card := by
  have h : Reaches counter (SsePool.start (Fin 2)) _ :=
    .single (step_fetchAdd (i := 0) sendSse_eq_perform)
  obtain ⟨hcap, hstreams, -, hcount, -⟩ := sse_slots (by decide) h
  exact ⟨_, h, rfl, hstreams 0 afterStream rfl, hcap, hcount⟩

end Transport
end FolkAround
