import Mathlib.Data.List.Basic

/-!
# Runs of a state machine

A machine is a function `step : S → A → S`; a run feeds it a list of actions from
left to right.  The module holds the induction over runs once and for all:

* `run` — the state after a list of actions.
* `StepsMeet` — every action of the run meets a condition in the state in which it
  is taken.
* `run_invariant_iff` — where the condition is exact for a step, it is for a run.
* `length_le_measure` — a run whose steps all lower a measure is no longer than that.
* `run_invariant` — what holds at the start and survives every step that meets the
  condition holds at the end of the run.
-/

namespace Runs

variable {S A : Type} (step : S → A → S)

/-- The state after a list of actions. -/
def run (s : S) (as : List A) : S := as.foldl step s

@[simp] theorem run_nil (s : S) : run step s [] = s := rfl

@[simp] theorem run_cons (s : S) (a : A) (as : List A) :
    run step s (a :: as) = run step (step s a) as := rfl

/-- Every action of the list meets `Ok` in the state in which it is taken. -/
def StepsMeet (Ok : S → A → Prop) : S → List A → Prop
  | _, [] => True
  | s, a :: as => Ok s a ∧ StepsMeet Ok (step s a) as

/-- Where the condition can be decided, it can be for a run. -/
instance decidableStepsMeet {Ok : S → A → Prop} [∀ s a, Decidable (Ok s a)] :
    ∀ s as, Decidable (StepsMeet step Ok s as)
  | _, [] => isTrue trivial
  | s, a :: as =>
    have : Decidable (StepsMeet step Ok (step s a) as) := decidableStepsMeet (step s a) as
    inferInstanceAs (Decidable (Ok s a ∧ StepsMeet step Ok (step s a) as))

/-- A run meets what its condition implies. -/
theorem stepsMeet_mono {Ok Ok' : S → A → Prop} (h : ∀ s a, Ok s a → Ok' s a) {s : S}
    {as : List A} (hok : StepsMeet step Ok s as) : StepsMeet step Ok' s as := by
  induction as generalizing s with
  | nil => trivial
  | cons a as ih => exact ⟨h s a hok.1, ih hok.2⟩

/-- A condition on the action alone is met by a run if all its actions meet it. -/
theorem stepsMeet_of_mem {Ok : S → A → Prop} {as : List A} (h : ∀ a ∈ as, ∀ s, Ok s a) (s : S) :
    StepsMeet step Ok s as := by
  induction as generalizing s with
  | nil => trivial
  | cons a as ih =>
      exact ⟨h a (List.mem_cons_self ..) s, ih (fun b hb => h b (List.mem_cons_of_mem _ hb)) _⟩

/-- **The invariant rule.**  What holds at the start and survives every step that
meets the condition holds after every run whose steps all meet it. -/
theorem run_invariant {Inv : S → Prop} {Ok : S → A → Prop}
    (hstep : ∀ s a, Inv s → Ok s a → Inv (step s a)) {s : S} {as : List A} (hs : Inv s)
    (hok : StepsMeet step Ok s as) : Inv (run step s as) := by
  induction as generalizing s with
  | nil => exact hs
  | cons a as ih => exact ih (hstep s a hs hok.1) hok.2

/-- Where the condition on a step is exact, so is the condition on a run. -/
theorem run_invariant_iff {Inv : S → Prop} {Ok : S → A → Prop}
    (hstep : ∀ s a, Inv s → (Inv (step s a) ↔ Ok s a)) {s : S} {as : List A} (hs : Inv s) :
    (∀ bs, bs <+: as → Inv (run step s bs)) ↔ StepsMeet step Ok s as := by
  induction as generalizing s with
  | nil => simpa [StepsMeet] using hs
  | cons a as ih =>
      constructor
      · intro h
        have ha : Inv (step s a) := h [a] (List.prefix_append [a] as)
        exact ⟨(hstep s a hs).1 ha, (ih ha).1 fun bs hbs => h (a :: bs) (by simpa using hbs)⟩
      · rintro ⟨ha, has⟩ bs hbs
        cases bs with
        | nil => exact hs
        | cons b bs =>
            obtain ⟨rfl, htl⟩ := List.cons_prefix_cons.1 hbs
            exact (ih ((hstep s b hs).2 ha)).2 has bs htl

/-- The invariant rule for a property that every step keeps. -/
theorem run_invariant_of_forall {Inv : S → Prop} (hstep : ∀ s a, Inv s → Inv (step s a))
    {s : S} (hs : Inv s) (as : List A) : Inv (run step s as) := by
  induction as generalizing s with
  | nil => exact hs
  | cons a as ih => exact ih (hstep s a hs)

/-- **The measure rule.**  A run whose steps all lower a measure is no longer than the
measure is at its start. -/
theorem length_le_measure (Inv : S → Prop) {Ok : S → A → Prop} (measure : S → Nat)
    (hstep : ∀ s a, Inv s → Ok s a → Inv (step s a) ∧ measure (step s a) < measure s)
    {s : S} {as : List A} (hs : Inv s) (hok : StepsMeet step Ok s as) :
    as.length ≤ measure s := by
  induction as generalizing s with
  | nil => exact Nat.zero_le _
  | cons a as ih =>
      obtain ⟨hinv, hlt⟩ := hstep s a hs hok.1
      have hrest := ih hinv hok.2
      rw [List.length_cons]
      omega

/-- A run in two parts. -/
theorem run_append (s : S) (as bs : List A) :
    run step s (as ++ bs) = run step (run step s as) bs := List.foldl_append

theorem stepsMeet_append {Ok : S → A → Prop} {s : S} {as bs : List A} :
    StepsMeet step Ok s (as ++ bs) ↔
      StepsMeet step Ok s as ∧ StepsMeet step Ok (run step s as) bs := by
  induction as generalizing s with
  | nil => simp [StepsMeet]
  | cons a as ih => simp [StepsMeet, ih, and_assoc]

end Runs
