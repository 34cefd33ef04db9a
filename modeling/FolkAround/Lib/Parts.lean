import Mathlib.Data.List.Infix

/-!
# Machines in independent parts

Every action of the machine belongs to a part of the state: it reads and writes that
part and no other, and what it puts out depends on that part alone.  The machine may
stop at an action, and then the run is over.

* `runWith` — the state after a run that does not stop, and what was put out on the way.
* `Separated` — the two conditions, one on the own part and one on the others.
* `Separated.run_filter` — one part of a run is the run of that part.
* `Separated.isSome_of_parts` — a run whose parts can all be run can be run.
* `Separated.rearrange` — a run in another order, in which some parts may be cut short.
-/

namespace Parts

variable {S A O D V : Type} (step : S → A → Option (S × O))

/-- A run, with what every action put out; `none` if the machine stops. -/
def runWith (s : S) : List A → Option (S × List (A × O))
  | [] => some (s, [])
  | a :: as =>
    match step s a with
    | none => none
    | some (s', o) => (runWith s' as).map fun r => (r.1, (a, o) :: r.2)

variable {step}

/-- A run with a first action is a step and the run of the rest. -/
theorem runWith_cons {s s' : S} {a : A} {as : List A} {log : List (A × O)} :
    runWith step s (a :: as) = some (s', log) ↔
      ∃ s₁ o rest, step s a = some (s₁, o) ∧ runWith step s₁ as = some (s', rest) ∧
        log = (a, o) :: rest := by
  rw [runWith]
  cases h : step s a with
  | none => simp
  | some r =>
      obtain ⟨s₁, o⟩ := r
      simp only [Option.map_eq_some_iff, Option.some.injEq, Prod.mk.injEq, Prod.exists]
      constructor
      · rintro ⟨s₂, rest, hrest, rfl, rfl⟩
        exact ⟨s₁, o, rest, ⟨rfl, rfl⟩, hrest, rfl⟩
      · rintro ⟨_, _, rest, ⟨rfl, rfl⟩, hrest, rfl⟩
        exact ⟨s', rest, hrest, rfl, rfl⟩

/-- The first actions of a run can be run, and put out what they did. -/
theorem runWith_prefix {s s' : S} {as bs : List A} {log : List (A × O)}
    (h : runWith step s as = some (s', log)) (hpre : bs <+: as) :
    ∃ s₁ log₁, runWith step s bs = some (s₁, log₁) ∧ log₁ <+: log := by
  induction bs generalizing s as log with
  | nil => exact ⟨s, [], rfl, List.nil_prefix⟩
  | cons b bs ih =>
      obtain ⟨as, rfl⟩ := hpre
      obtain ⟨s₁, o, rest, hstep, hrest, rfl⟩ := runWith_cons.1 h
      obtain ⟨s₂, log₂, hbs, hlog⟩ := ih hrest (List.prefix_append bs as)
      exact ⟨s₂, (b, o) :: log₂, runWith_cons.2 ⟨s₁, o, log₂, hstep, hbs, rfl⟩,
        List.cons_prefix_cons.2 ⟨rfl, hlog⟩⟩

variable (step)

/-- Every action reads and writes its own part of the state only. -/
structure Separated (part : A → D) (view : D → S → V) : Prop where
  /-- States with the same part are alike to the actions of that part. -/
  own : ∀ {s t s' : S} {a : A} {o : O}, view (part a) t = view (part a) s →
    step s a = some (s', o) → ∃ t', step t a = some (t', o) ∧ view (part a) t' = view (part a) s'
  /-- The other parts stay as they are. -/
  frame : ∀ {s s' : S} {a : A} {o : O} {d : D}, step s a = some (s', o) → d ≠ part a →
    view d s' = view d s

variable {step} [DecidableEq D] {part : A → D} {view : D → S → V}

variable (part) in
/-- The actions of one part. -/
def actionsOf (d : D) (as : List A) : List A := as.filter fun a => part a = d

variable (part) in
/-- What the actions of one part put out. -/
def outputsOf (d : D) (log : List (A × O)) : List (A × O) := log.filter fun e => part e.1 = d

theorem actionsOf_cons_self (a : A) (as : List A) :
    actionsOf part (part a) (a :: as) = a :: actionsOf part (part a) as := by
  simp [actionsOf]

theorem actionsOf_cons_of_ne {a : A} {d : D} (h : d ≠ part a) (as : List A) :
    actionsOf part d (a :: as) = actionsOf part d as := by
  simp [actionsOf, Ne.symm h]

theorem outputsOf_cons_self (a : A) (o : O) (log : List (A × O)) :
    outputsOf part (part a) ((a, o) :: log) = (a, o) :: outputsOf part (part a) log := by
  simp [outputsOf]

theorem outputsOf_cons_of_ne {a : A} {d : D} (h : d ≠ part a) (o : O) (log : List (A × O)) :
    outputsOf part d ((a, o) :: log) = outputsOf part d log := by
  simp [outputsOf, Ne.symm h]

/-- **One part of a run is the run of that part.** -/
theorem Separated.run_filter (hsep : Separated step part view) (d : D) {s s' t : S} {as : List A}
    {log : List (A × O)} (h : runWith step s as = some (s', log)) (hview : view d t = view d s) :
    ∃ t', runWith step t (actionsOf part d as) = some (t', outputsOf part d log) ∧
      view d t' = view d s' := by
  induction as generalizing s t log with
  | nil =>
      simp only [runWith, Option.some.injEq, Prod.mk.injEq] at h
      obtain ⟨rfl, rfl⟩ := h
      exact ⟨t, rfl, hview⟩
  | cons a as ih =>
      obtain ⟨s₁, o, rest, hstep, hrest, rfl⟩ := runWith_cons.1 h
      by_cases hd : d = part a
      · subst hd
        obtain ⟨t₁, htstep, hview₁⟩ := hsep.own hview hstep
        obtain ⟨t', hrun, hend⟩ := ih hrest hview₁
        rw [actionsOf_cons_self, outputsOf_cons_self]
        exact ⟨t', runWith_cons.2 ⟨t₁, o, _, htstep, hrun, rfl⟩, hend⟩
      · rw [actionsOf_cons_of_ne hd, outputsOf_cons_of_ne hd]
        exact ih hrest (hview.trans (hsep.frame hstep hd).symm)

/-- The actions of a part can be run from a state if they can from one with that part. -/
theorem Separated.isSome_of_view (hsep : Separated step part view) (d : D) {s t : S} {as : List A}
    (h : (runWith step s (actionsOf part d as)).isSome) (hview : view d t = view d s) :
    (runWith step t (actionsOf part d as)).isSome := by
  obtain ⟨⟨s', log⟩, hs⟩ := Option.isSome_iff_exists.1 h
  obtain ⟨t', ht, -⟩ := hsep.run_filter d hs hview
  have hself : actionsOf part d (actionsOf part d as) = actionsOf part d as := by
    simp [actionsOf]
  rw [hself] at ht
  exact Option.isSome_iff_exists.2 ⟨_, ht⟩

/-- **A run whose parts can all be run can be run.** -/
theorem Separated.isSome_of_parts (hsep : Separated step part view) {s : S} {as : List A}
    (h : ∀ d, (runWith step s (actionsOf part d as)).isSome) : (runWith step s as).isSome := by
  induction as generalizing s with
  | nil => rfl
  | cons a as ih =>
      have hown := h (part a)
      rw [actionsOf_cons_self] at hown
      obtain ⟨⟨s', log⟩, hs⟩ := Option.isSome_iff_exists.1 hown
      obtain ⟨s₁, o, rest, hstep, hrest, -⟩ := runWith_cons.1 hs
      have hparts : ∀ d, (runWith step s₁ (actionsOf part d as)).isSome := by
        intro d
        by_cases hd : d = part a
        · rw [hd]
          exact Option.isSome_iff_exists.2 ⟨_, hrest⟩
        · have hother := h d
          rw [actionsOf_cons_of_ne hd] at hother
          exact hsep.isSome_of_view d hother (hsep.frame hstep hd)
      obtain ⟨⟨s₂, log₂⟩, htail⟩ := Option.isSome_iff_exists.1 (ih hparts)
      exact Option.isSome_iff_exists.2 ⟨_, runWith_cons.2 ⟨s₁, o, log₂, hstep, htail, rfl⟩⟩

/-- **The actions in another order.**  If every part keeps its order, or is cut short, the
machine does not stop either; what a part puts out is as much of what it did before, and a
part that is complete is left as it was. -/
theorem Separated.rearrange (hsep : Separated step part view) {s s' : S} {as bs : List A}
    {log : List (A × O)} (h : runWith step s as = some (s', log))
    (hparts : ∀ d, actionsOf part d bs <+: actionsOf part d as) :
    ∃ t log', runWith step s bs = some (t, log') ∧
      ∀ d, outputsOf part d log' <+: outputsOf part d log ∧
        (actionsOf part d bs = actionsOf part d as →
          outputsOf part d log' = outputsOf part d log ∧ view d t = view d s') := by
  have hcut : ∀ d, ∃ s₁ log₁, runWith step s (actionsOf part d bs) = some (s₁, log₁) ∧
      log₁ <+: outputsOf part d log := by
    intro d
    obtain ⟨_, hrun, -⟩ := hsep.run_filter d h rfl
    exact runWith_prefix hrun (hparts d)
  have hsome : (runWith step s bs).isSome := by
    apply hsep.isSome_of_parts
    intro d
    obtain ⟨_, _, hrun, -⟩ := hcut d
    exact Option.isSome_iff_exists.2 ⟨_, hrun⟩
  obtain ⟨⟨t, log'⟩, ht⟩ := Option.isSome_iff_exists.1 hsome
  refine ⟨t, log', ht, fun d => ?_⟩
  obtain ⟨t₁, ht₁, hview⟩ := hsep.run_filter d ht rfl
  constructor
  · obtain ⟨s₁, log₁, hrun, hlog⟩ := hcut d
    rw [ht₁, Option.some.injEq, Prod.mk.injEq] at hrun
    rwa [hrun.2]
  · intro heq
    obtain ⟨s₁, hs₁, hview'⟩ := hsep.run_filter d h rfl
    rw [heq, hs₁, Option.some.injEq, Prod.mk.injEq] at ht₁
    obtain ⟨rfl, hout⟩ := ht₁
    exact ⟨hout.symm, hview.symm.trans hview'⟩

end Parts
