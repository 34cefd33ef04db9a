import Mathlib.Data.List.Count
import Mathlib.Tactic.Common

/-!
# Counting in fixed windows

A limiter that counts events in windows of a fixed width.  A window opens with the first
event after the one before it is over, so windows lie anywhere on the time line, but two
of them never overlap.

* `Window`, `tick` — the window after one more event.
* `State`, `State.event` — a limiter with the log of what it let pass.
* `Inv` — the invariant: windows keep their distance, and none is overfull.
* `Inv.event` — every event keeps it.
* `Inv.countP_interval_le` — what passes in any interval as long as a window, which meets
  two of them at most.
* `Inv.event_passes` — who keeps to the limit in every interval is never turned away.
-/

namespace FixedWindow

/-- An open window: what it has counted, and when it is over. -/
structure Window where
  count : Nat
  resetAt : Int

/-- The window after an event: the open one, or a new one if that is over. -/
def tick (width now : Int) : Option Window → Window
  | none => ⟨1, now + width⟩
  | some w => if w.resetAt ≤ now then ⟨1, now + width⟩ else { w with count := w.count + 1 }

/-- An event that passed: when, and when its window is over. -/
structure Passed where
  time : Int
  resetAt : Int

structure State where
  window : Option Window
  log : List Passed

/-- An event is counted, and passes if its window is not full. -/
def State.event (width : Int) (limit : Nat) (now : Int) (s : State) : State :=
  let w := tick width now s.window
  ⟨some w, if w.count ≤ limit then s.log ++ [⟨now, w.resetAt⟩] else s.log⟩

variable {width now lo : Int} {limit : Nat} {s : State}

/-! ## One more event -/

/-- The two ways an event is counted. -/
theorem tick_cases (width now : Int) (o : Option Window) :
    (tick width now o = ⟨1, now + width⟩ ∧ ∀ w, o = some w → w.resetAt ≤ now) ∨
      ∃ w, o = some w ∧ now < w.resetAt ∧ tick width now o = ⟨w.count + 1, w.resetAt⟩ := by
  cases o with
  | none => exact .inl ⟨rfl, nofun⟩
  | some w =>
      by_cases h : w.resetAt ≤ now
      · refine .inl ⟨if_pos h, ?_⟩
        rintro _ ⟨⟩
        exact h
      · exact .inr ⟨w, rfl, Int.not_le.1 h, if_neg h⟩

/-- The log of a limiter that has seen no clock beyond `lo`. -/
structure Inv (width : Int) (limit : Nat) (lo : Int) (s : State) : Prop where
  /-- What passed lies in its window. -/
  inside : ∀ a ∈ s.log, a.resetAt - width ≤ a.time ∧ a.time < a.resetAt
  /-- The window that is open was opened by now. -/
  opened : ∀ w, s.window = some w → w.resetAt ≤ lo + width
  /-- What passed did so in the window that is open, or in one that was over before. -/
  last : ∀ a ∈ s.log, ∃ w, s.window = some w ∧
    (a.resetAt = w.resetAt ∨ a.resetAt ≤ w.resetAt - width)
  /-- Windows do not overlap. -/
  apart : ∀ a ∈ s.log, ∀ b ∈ s.log, a.resetAt < b.resetAt → a.resetAt + width ≤ b.resetAt
  counted : ∀ w, s.window = some w → s.log.countP (fun a => a.resetAt = w.resetAt) ≤ w.count
  full : ∀ r, s.log.countP (fun a => a.resetAt = r) ≤ limit

theorem inv_start (width : Int) (limit : Nat) (lo : Int) : Inv width limit lo ⟨none, []⟩ where
  inside := nofun
  opened := nofun
  last := nofun
  apart := nofun
  counted := nofun
  full _ := Nat.zero_le _

/-- Nothing that passed lies in a window that opens now. -/
theorem Inv.countP_new (h : Inv width limit lo s) (hwidth : 0 < width)
    (hover : ∀ w, s.window = some w → w.resetAt ≤ now) :
    s.log.countP (fun a => a.resetAt = now + width) = 0 := by
  apply List.countP_eq_zero.2
  intro a ha
  obtain ⟨w, hw, hlast⟩ := h.last a ha
  have := hover w hw
  have : a.resetAt ≠ now + width := by omega
  simpa using this

/-- What is counted before it is let pass. -/
structure Counts (width : Int) (now : Int) (w : Window) (log : List Passed) : Prop where
  inside : w.resetAt - width ≤ now ∧ now < w.resetAt
  counted : log.countP (fun a => a.resetAt = w.resetAt) + 1 ≤ w.count

/-- The window after an event, while the event is not in the log yet. -/
theorem Inv.tick (h : Inv width limit lo s) (hwidth : 0 < width) (hnow : lo ≤ now) :
    Inv width limit now ⟨some (FixedWindow.tick width now s.window), s.log⟩ ∧
      Counts width now (FixedWindow.tick width now s.window) s.log := by
  rcases tick_cases width now s.window with ⟨htick, hover⟩ | ⟨w, hw, hopen, htick⟩
  · have hzero := h.countP_new hwidth hover
    rw [htick]
    refine ⟨⟨h.inside, ?_, ?_, h.apart, ?_, h.full⟩, ⟨by constructor <;> simp only <;> omega, ?_⟩⟩
    · rintro _ ⟨⟩
      exact Int.le_refl _
    · intro a ha
      obtain ⟨w, hw, hlast⟩ := h.last a ha
      have := hover w hw
      exact ⟨_, rfl, .inr (by simp only; omega)⟩
    · rintro _ ⟨⟩
      rw [hzero]
      exact Nat.zero_le 1
    · exact Nat.succ_le_succ (Nat.le_of_eq hzero)
  · have hopened := h.opened w hw
    have hcounted := h.counted w hw
    rw [htick]
    refine ⟨⟨h.inside, ?_, ?_, h.apart, ?_, h.full⟩, ⟨by constructor <;> simp only <;> omega, ?_⟩⟩
    · rintro _ ⟨⟩
      simp only
      omega
    · intro a ha
      obtain ⟨w', hw', hlast⟩ := h.last a ha
      obtain rfl : w = w' := Option.some.inj (hw.symm.trans hw')
      exact ⟨_, rfl, hlast⟩
    · rintro _ ⟨⟩
      exact Nat.le_succ_of_le hcounted
    · exact Nat.succ_le_succ hcounted

/-- An event that was counted passes. -/
theorem Inv.pass {w : Window} {log : List Passed} (h : Inv width limit now ⟨some w, log⟩)
    (hc : Counts width now w log) (hlimit : w.count ≤ limit) :
    Inv width limit now ⟨some w, log ++ [⟨now, w.resetAt⟩]⟩ := by
  have hlast : ∀ a ∈ log, a.resetAt = w.resetAt ∨ a.resetAt ≤ w.resetAt - width := by
    intro a ha
    obtain ⟨_, ⟨⟩, h⟩ := h.last a ha
    exact h
  refine ⟨?_, h.opened, ?_, ?_, ?_, ?_⟩
  · intro a ha
    rcases List.mem_append.1 ha with ha | ha
    · exact h.inside a ha
    · rw [List.mem_singleton.1 ha]
      exact hc.inside
  · intro a ha
    rcases List.mem_append.1 ha with ha | ha
    · exact h.last a ha
    · rw [List.mem_singleton.1 ha]
      exact ⟨w, rfl, .inl rfl⟩
  · intro a ha b hb hlt
    rcases List.mem_append.1 ha with ha | ha <;> rcases List.mem_append.1 hb with hb | hb
    · exact h.apart a ha b hb hlt
    · rw [List.mem_singleton.1 hb] at hlt ⊢
      have := hlast a ha
      simp only at hlt ⊢
      omega
    · rw [List.mem_singleton.1 ha] at hlt ⊢
      have := hlast b hb
      have := hc.inside
      simp only at hlt ⊢
      omega
    · rw [List.mem_singleton.1 ha, List.mem_singleton.1 hb] at hlt
      exact absurd hlt (Int.lt_irrefl _)
  · rintro _ ⟨⟩
    rw [List.countP_append]
    simpa using hc.counted
  · intro r
    rw [List.countP_append]
    by_cases hr : w.resetAt = r
    · subst hr
      simpa using Nat.le_trans hc.counted hlimit
    · simpa [hr] using h.full r

/-- **The step lemma.**  An event keeps the invariant, if the clock does not go back. -/
theorem Inv.event (h : Inv width limit lo s) (hwidth : 0 < width) (hnow : lo ≤ now) :
    Inv width limit now (s.event width limit now) := by
  obtain ⟨hinv, hcounts⟩ := h.tick hwidth hnow
  unfold State.event
  dsimp only
  split
  · next hlimit => exact hinv.pass hcounts hlimit
  · exact hinv

/-- Time may pass. -/
theorem Inv.mono (h : Inv width limit lo s) (hlo : lo ≤ now) : Inv width limit now s := by
  refine { h with opened := ?_ }
  intro w hw
  have := h.opened w hw
  omega

/-! ## How much passes -/

/-- What passes in one window at most is no more than the limit. -/
theorem Inv.countP_le_of_one (h : Inv width limit lo s) {p : Passed → Bool}
    (hone : ∀ a ∈ s.log, ∀ b ∈ s.log, p a → p b → a.resetAt = b.resetAt) :
    s.log.countP p ≤ limit := by
  by_cases hex : ∃ a ∈ s.log, p a
  · obtain ⟨a, ha, hpa⟩ := hex
    have hle : s.log.countP p ≤ s.log.countP (fun b => b.resetAt = a.resetAt) := by
      apply List.countP_mono_left
      intro b hb hpb
      simpa using hone b hb a ha hpb hpa
    exact Nat.le_trans hle (h.full _)
  · have hzero : s.log.countP p = 0 := by
      apply List.countP_eq_zero.2
      intro a ha hpa
      exact hex ⟨a, ha, hpa⟩
    rw [hzero]
    exact Nat.zero_le _

/-- **Any interval.**  An interval as long as a window meets two windows at most: one
that is over by its end, and one that is not. -/
theorem Inv.countP_interval_le (h : Inv width limit lo s) (t : Int) :
    s.log.countP (fun a => t ≤ a.time ∧ a.time < t + width) ≤ 2 * limit := by
  have hone : ∀ a ∈ s.log, ∀ b ∈ s.log, a.resetAt < b.resetAt + width →
      b.resetAt < a.resetAt + width → a.resetAt = b.resetAt := by
    intro a ha b hb hab hba
    rcases Int.lt_trichotomy a.resetAt b.resetAt with hlt | heq | hlt
    · have := h.apart a ha b hb hlt
      omega
    · exact heq
    · have := h.apart b hb a ha hlt
      omega
  rw [List.countP_eq_countP_filter_add s.log _ fun a => a.resetAt ≤ t + width, List.countP_filter,
    List.countP_filter, Nat.two_mul]
  apply Nat.add_le_add
  · apply h.countP_le_of_one
    intro a ha b hb hpa hpb
    simp only [Bool.and_eq_true, decide_eq_true_eq] at hpa hpb
    have hina := h.inside a ha
    have hinb := h.inside b hb
    exact hone a ha b hb (by omega) (by omega)
  · apply h.countP_le_of_one
    intro a ha b hb hpa hpb
    simp only [Bool.and_eq_true, Bool.not_eq_true', decide_eq_true_eq,
      decide_eq_false_iff_not] at hpa hpb
    have hina := h.inside a ha
    have hinb := h.inside b hb
    exact hone a ha b hb (by omega) (by omega)

/-! ## What surely passes -/

/-- All that was counted in the open window has passed. -/
def AllPassed (s : State) : Prop :=
  ∀ w, s.window = some w → s.log.countP (fun a => a.resetAt = w.resetAt) = w.count

theorem allPassed_start : AllPassed ⟨none, []⟩ := by
  rintro w ⟨⟩

/-- **The pace rule.**  Where all has passed so far, and fewer events than the limit did in
any interval that is as long as a window and not over yet, one more event passes. -/
theorem Inv.event_passes (h : Inv width limit lo s) (hall : AllPassed s) (hwidth : 0 < width)
    (hnow : lo ≤ now) (hpaced : ∀ t, t ≤ now → now < t + width →
      s.log.countP (fun a => t ≤ a.time ∧ a.time < t + width) < limit) :
    (FixedWindow.tick width now s.window).count ≤ limit ∧ AllPassed (s.event width limit now) := by
  have hcount : (FixedWindow.tick width now s.window).count ≤ limit ∧
      s.log.countP (fun a => a.resetAt = (FixedWindow.tick width now s.window).resetAt) + 1 =
        (FixedWindow.tick width now s.window).count := by
    rcases tick_cases width now s.window with ⟨htick, hover⟩ | ⟨w, hw, hopen, htick⟩
    · have hfirst := hpaced now (Int.le_refl _) (by omega)
      rw [htick]
      refine ⟨by simp only; omega, ?_⟩
      simp only [h.countP_new hwidth hover]
    · have hopened := h.opened w hw
      have hrecent := hpaced (w.resetAt - width) (by omega) (by omega)
      -- the events of the open window lie in an interval of its length
      have hle : s.log.countP (fun a => a.resetAt = w.resetAt) ≤
          s.log.countP (fun a => w.resetAt - width ≤ a.time ∧ a.time < w.resetAt - width + width) := by
        apply List.countP_mono_left
        intro a ha hreset
        have hinside := h.inside a ha
        rw [decide_eq_true_eq] at hreset ⊢
        omega
      have hexact := hall w hw
      rw [htick]
      exact ⟨by simp only; omega, congrArg (· + 1) hexact⟩
  unfold State.event
  dsimp only
  rw [if_pos hcount.1]
  refine ⟨hcount.1, ?_⟩
  rintro _ ⟨⟩
  rw [List.countP_append, ← hcount.2]
  simp

end FixedWindow
