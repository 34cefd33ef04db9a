import Mathlib.Data.Fintype.Card
import Mathlib.Logic.Relation

/-!
# Slots that are taken by counting

Users share a number of slots and a counter.  A user that wants a slot adds one to the
counter and looks at what it was: below the capacity the slot is taken, otherwise the
user is refused and takes its one back in a later step.  A slot is given back by
subtracting one.  So the counter can be above the capacity for a while.

* `State`, `Step` — the users, each in a stage, and the counter.
* `Inv` — the counter is the number of those inside and of those refused who have not
  taken back their one, and there are never more inside than there are slots.
* `Stage.weight`, `Inv.move` — what a user is of the counter, and how it may move on.
* `reaches_inv` — this holds whatever the order of the steps.
* `Step.full` — who is refused when no other one is finds all slots taken.
-/

namespace Slots

variable {ι : Type}

/-- How far a user has come. -/
inductive Stage where
  /-- The counter does not know of the user yet. -/
  | outside
  | inside
  /-- Refused, with its one still in the counter. -/
  | refused
  | gone
  deriving DecidableEq

structure State (ι : Type) where
  stage : ι → Stage
  count : Nat

/-- Nobody has come yet. -/
def State.start : State ι := ⟨fun _ => .outside, 0⟩

section

variable [DecidableEq ι]

/-- A user moves on to another stage, and the counter changes. -/
def State.move (s : State ι) (i : ι) (x : Stage) (count : Nat) : State ι :=
  ⟨Function.update s.stage i x, count⟩

inductive Step (capacity : Nat) (s : State ι) : State ι → Prop where
  | enter (i : ι) : s.stage i = .outside → s.count < capacity →
      Step capacity s (s.move i .inside (s.count + 1))
  | refuse (i : ι) : s.stage i = .outside → capacity ≤ s.count →
      Step capacity s (s.move i .refused (s.count + 1))
  | undo (i : ι) : s.stage i = .refused → Step capacity s (s.move i .gone (s.count - 1))
  | leave (i : ι) : s.stage i = .inside → Step capacity s (s.move i .gone (s.count - 1))

def Reaches (capacity : Nat) : State ι → State ι → Prop := Relation.ReflTransGen (Step capacity)

end

/-! ## How many there are in a stage -/

variable [Fintype ι]

/-- The users in a stage. -/
def State.users (s : State ι) (x : Stage) : Finset ι := Finset.univ.filter fun i => s.stage i = x

@[simp] theorem mem_users {s : State ι} {x : Stage} {i : ι} : i ∈ s.users x ↔ s.stage i = x := by
  simp [State.users]

variable [DecidableEq ι] {s s' : State ι} {i : ι} {x y : Stage} {count capacity : Nat}

theorem users_move_self : (s.move i x count).users x = insert i (s.users x) := by
  ext j
  by_cases hj : j = i
  · simp [State.move, hj]
  · simp [State.move, hj]

theorem users_move_of_ne (h : x ≠ y) : (s.move i x count).users y = (s.users y).erase i := by
  ext j
  by_cases hj : j = i
  · simp [State.move, hj, h]
  · simp [State.move, hj]

/-- One more in the stage that a user comes to, and one fewer in the one it comes from. -/
theorem card_users_move (s : State ι) (i : ι) (x y : Stage) (count : Nat) :
    ((s.move i x count).users y).card + (if s.stage i = y then 1 else 0) =
      (s.users y).card + if x = y then 1 else 0 := by
  by_cases hxy : x = y
  · subst hxy
    rw [users_move_self, if_pos rfl]
    by_cases hi : s.stage i = x
    · rw [if_pos hi, Finset.insert_eq_of_mem (mem_users.2 hi)]
    · rw [if_neg hi, Nat.add_zero, Finset.card_insert_of_notMem (by simpa using hi)]
  · rw [users_move_of_ne hxy, if_neg hxy, Nat.add_zero]
    by_cases hi : s.stage i = y
    · rw [if_pos hi, Finset.card_erase_add_one (mem_users.2 hi)]
    · rw [if_neg hi, Nat.add_zero, Finset.erase_eq_of_notMem (by simpa using hi)]

/-! ## The invariant -/

structure Inv (capacity : Nat) (s : State ι) : Prop where
  count : s.count = (s.users .inside).card + (s.users .refused).card
  capped : (s.users .inside).card ≤ capacity

omit [DecidableEq ι] in
theorem inv_start : Inv capacity (State.start : State ι) := by
  have hnone : ∀ x, x ≠ Stage.outside → (State.start : State ι).users x = ∅ := by
    intro x hx
    ext i
    simpa [State.start] using hx.symm
  constructor
  · rw [hnone .inside (by decide), hnone .refused (by decide)]
    rfl
  · rw [hnone .inside (by decide)]
    exact Nat.zero_le _

/-- How much of the counter a user at this stage is. -/
def Stage.weight (x : Stage) : Nat :=
  (if x = .inside then 1 else 0) + if x = .refused then 1 else 0

/-- A user may move on if the counter changes with it, and if there is room for it. -/
theorem Inv.move (hs : Inv capacity s)
    (hcount : count + (s.stage i).weight = s.count + x.weight)
    (hroom : x = .inside → s.count < capacity) : Inv capacity (s.move i x count) := by
  have hinside := card_users_move s i x .inside count
  have hrefused := card_users_move s i x .refused count
  have hold := hs.count
  rw [Stage.weight, Stage.weight] at hcount
  constructor
  · show count = _
    omega
  · by_cases hx : x = .inside
    · have hfree := hroom hx
      rw [if_pos hx] at hinside
      omega
    · have hcapped := hs.capped
      rw [if_neg hx] at hinside
      omega

omit [DecidableEq ι] in
/-- Who has a one in the counter can take it out. -/
theorem Inv.count_pos (hs : Inv capacity s) (hi : s.stage i = .inside ∨ s.stage i = .refused) :
    0 < s.count := by
  have hcount := hs.count
  rcases hi with hi | hi
  · have hpos : 0 < (s.users .inside).card := Finset.card_pos.2 ⟨i, mem_users.2 hi⟩
    omega
  · have hpos : 0 < (s.users .refused).card := Finset.card_pos.2 ⟨i, mem_users.2 hi⟩
    omega

theorem Step.inv (h : Step capacity s s') (hs : Inv capacity s) : Inv capacity s' := by
  cases h with
  | enter i hi hroom => exact hs.move (by rw [hi]; rfl) fun _ => hroom
  | refuse i hi hfull => exact hs.move (by rw [hi]; rfl) nofun
  | undo i hi =>
      have hpos := hs.count_pos (.inr hi)
      exact hs.move (by rw [hi]; exact Nat.sub_add_cancel hpos) nofun
  | leave i hi =>
      have hpos := hs.count_pos (.inl hi)
      exact hs.move (by rw [hi]; exact Nat.sub_add_cancel hpos) nofun

/-- The first of several refusals happens when all slots are taken. -/
theorem Step.full (h : Step capacity s s') (hs : Inv capacity s) (hnone : s.users .refused = ∅)
    (hsome : (s'.users .refused).Nonempty) : (s.users .inside).card = capacity := by
  obtain ⟨j, hj⟩ := hsome
  have hold : ∀ {i x count}, x ≠ .refused → j ∉ (s.move i x count).users .refused := by
    intro i x count hx
    rw [users_move_of_ne hx, hnone]
    exact Finset.notMem_empty j
  cases h with
  | enter i hi hroom => exact absurd hj (hold (by decide))
  | refuse i hi hfull =>
      have hcount := hs.count
      have hcapped := hs.capped
      rw [hnone, Finset.card_empty] at hcount
      omega
  | undo i hi => exact absurd hj (hold (by decide))
  | leave i hi => exact absurd hj (hold (by decide))

/-- **The invariant holds under every schedule.** -/
theorem reaches_inv (h : Reaches capacity s s') (hs : Inv capacity s) : Inv capacity s' := by
  induction h with
  | refl => exact hs
  | tail _ hstep ih => exact hstep.inv ih

/-- The counter is never above the number of users. -/
theorem Inv.count_le (hs : Inv capacity s) : s.count ≤ Fintype.card ι := by
  have hdisjoint : Disjoint (s.users .inside) (s.users .refused) := by
    rw [Finset.disjoint_left]
    intro i hi hr
    rw [mem_users] at hi hr
    exact absurd (hi.symm.trans hr) (by decide)
  rw [hs.count, ← Finset.card_union_of_disjoint hdisjoint]
  exact Finset.card_le_univ _

end Slots
