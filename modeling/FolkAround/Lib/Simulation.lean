import Mathlib.Data.List.Basic

/-!
# Machines that put something out

A machine answers every action with an output and a next state.  A relation between the
states of two machines that every action keeps, and under which it is answered alike, makes
their outputs the same in every run.

* `outputs` — what is put out in a run.
* `Steps` — the relation is kept, and the outputs agree; it may allow for a limited number
  of steps only.
* `outputs_eq` — the simulation rule.
-/

namespace Simulation

variable {S T A O : Type*}

/-- The outputs of a run, one for each action. -/
def outputs (step : S → A → S × O) : S → List A → List O
  | _, [] => []
  | s, a :: as => (step s a).2 :: outputs step (step s a).1 as

@[simp] theorem outputs_nil (step : S → A → S × O) (s : S) : outputs step s [] = [] := rfl

@[simp] theorem outputs_cons (step : S → A → S × O) (s : S) (a : A) (as : List A) :
    outputs step s (a :: as) = (step s a).2 :: outputs step (step s a).1 as := rfl

/-- States that are related for `n + 1` more steps take an action alike, and are related for
`n` more. -/
def Steps (step : S → A → S × O) (step' : T → A → T × O) (Ok : A → Prop) (R : ℕ → S → T → Prop) :
    Prop :=
  ∀ n s t a, Ok a → R (n + 1) s t →
    (step s a).2 = (step' t a).2 ∧ R n (step s a).1 (step' t a).1

/-- **The simulation rule.** -/
theorem outputs_eq {step : S → A → S × O} {step' : T → A → T × O} {Ok : A → Prop}
    {R : ℕ → S → T → Prop} (h : Steps step step' Ok R) {s : S} {t : T} {as : List A}
    (hok : ∀ a ∈ as, Ok a) (hR : R as.length s t) : outputs step s as = outputs step' t as := by
  induction as generalizing s t with
  | nil => rfl
  | cons a as ih =>
      obtain ⟨hout, hnext⟩ := h as.length s t a (hok a List.mem_cons_self) hR
      have hrest := ih (fun b hb => hok b (List.mem_cons_of_mem a hb)) hnext
      rw [outputs_cons, outputs_cons, hout, hrest]

end Simulation
