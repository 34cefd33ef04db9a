import Mathlib.Tactic.Common

/-!
# Programs with effects

A program is a tree: it has a result, or it performs an effect and goes on with the
answer to it.  Nothing is said of what the answers are, so what holds of a program
holds in every world.

* `Prog` — the programs, a monad; `StateT` and `ExceptT` give them a state and errors.
* `Attempts` — the effects a run has attempted when it is looked at; `Returns` — the
  result of a run that came to its end.
* `Prog.Within` — all effects are of some kind; `within_iff` says that this is about
  all runs.
* `Within` — the same for programs with a state and errors, and its rules: one for each
  way to put a program together.
-/

namespace Effects

/-- A program with effects in `E` that are answered in `R`. -/
inductive Prog (E : Type) (R : E → Type) (α : Type) where
  | pure (a : α)
  | perform (e : E) (k : R e → Prog E R α)

variable {E : Type} {R : E → Type} {α β σ ε : Type}

namespace Prog

def bind : Prog E R α → (α → Prog E R β) → Prog E R β
  | .pure a, f => f a
  | .perform e k, f => .perform e fun r => (k r).bind f

instance : Monad (Prog E R) where
  pure := .pure
  bind := bind

/-- One effect, and its answer. -/
def effect (e : E) : Prog E R (R e) := .perform e .pure

/-- All effects of the program are of the kind `P`. -/
def Within (P : E → Prop) : Prog E R α → Prop
  | .pure _ => True
  | .perform e k => P e ∧ ∀ r, (k r).Within P

theorem within_bind {P : E → Prop} {x : Prog E R α} {f : α → Prog E R β} (hx : x.Within P)
    (hf : ∀ a, (f a).Within P) : (x >>= f).Within P := by
  induction x with
  | pure a => exact hf a
  | perform e k ih => exact ⟨hx.1, fun r => ih r (hx.2 r)⟩

/-- The same for a program that may fail. -/
theorem within_except_bind {P : E → Prop} {x : ExceptT ε (Prog E R) α}
    {f : α → ExceptT ε (Prog E R) β} (hx : x.run.Within P) (hf : ∀ a, (f a).run.Within P) :
    (x >>= f).run.Within P := by
  refine within_bind hx fun r => ?_
  cases r with
  | ok a => exact hf a
  | error err => trivial

theorem within_mono {P Q : E → Prop} (hPQ : ∀ e, P e → Q e) {x : Prog E R α} (hx : x.Within P) :
    x.Within Q := by
  induction x with
  | pure a => trivial
  | perform e k ih => exact ⟨hPQ e hx.1, fun r => ih r (hx.2 r)⟩

end Prog

/-! ## Runs -/

/-- The effects a run has attempted so far; the last one need not have been answered. -/
inductive Attempts : Prog E R α → List E → Prop where
  | start (x : Prog E R α) : Attempts x []
  | attempt (e : E) (k : R e → Prog E R α) : Attempts (.perform e k) [e]
  | answer {e : E} {k : R e → Prog E R α} {trace : List E} (r : R e) :
      Attempts (k r) trace → Attempts (.perform e k) (e :: trace)

/-- **The kind of the effects of a program is that of the effects of all its runs.** -/
theorem within_iff {P : E → Prop} {x : Prog E R α} :
    x.Within P ↔ ∀ trace, Attempts x trace → ∀ e ∈ trace, P e := by
  constructor
  · intro h trace ht
    induction ht with
    | start x => exact fun e he => absurd he (by simp)
    | attempt e k =>
        intro e' he'
        rw [List.mem_singleton.1 he']
        exact h.1
    | answer r _ ih =>
        intro e' he'
        rcases List.mem_cons.1 he' with rfl | he'
        · exact h.1
        · exact ih (h.2 r) e' he'
  · intro h
    induction x with
    | pure a => trivial
    | perform e k ih =>
        refine ⟨h [e] (.attempt e k) e (List.mem_singleton_self e), fun r => ih r ?_⟩
        exact fun trace ht e' he' => h (e :: trace) (.answer r ht) e' (List.mem_cons_of_mem e he')

/-! ## Results -/

/-- A run of the program ends with the result. -/
inductive Returns : Prog E R α → α → Prop where
  | pure (a : α) : Returns (.pure a) a
  | answer {e : E} {k : R e → Prog E R α} {a : α} (r : R e) :
      Returns (k r) a → Returns (.perform e k) a

theorem returns_pure_iff {a b : α} : Returns (pure a : Prog E R α) b ↔ b = a := by
  constructor
  · rintro ⟨⟩
    rfl
  · rintro rfl
    exact .pure b

theorem returns_bind_iff {x : Prog E R α} {f : α → Prog E R β} {b : β} :
    Returns (x >>= f) b ↔ ∃ a, Returns x a ∧ Returns (f a) b := by
  induction x with
  | pure a =>
      constructor
      · intro h
        exact ⟨a, .pure a, h⟩
      · rintro ⟨_, ⟨⟩, h⟩
        exact h
  | perform e k ih =>
      constructor
      · rintro (_ | ⟨r, h⟩)
        obtain ⟨a, ha, hb⟩ := (ih r).1 h
        exact ⟨a, .answer r ha, hb⟩
      · rintro ⟨a, _ | ⟨r, ha⟩, hb⟩
        exact .answer r ((ih r).2 ⟨a, ha, hb⟩)

/-! ## With a state -/

/-- All effects are of the kind `P`, in whatever state the program starts. -/
def Within (P : E → Prop) (x : StateT σ (Prog E R) α) : Prop := ∀ s, (x s).Within P

variable {P Q : E → Prop}

theorem within_pure (a : α) : Within P (pure a : StateT σ (Prog E R) α) := fun _ => trivial

theorem within_bind {x : StateT σ (Prog E R) α} {f : α → StateT σ (Prog E R) β}
    (hx : Within P x) (hf : ∀ a, Within P (f a)) : Within P (x >>= f) :=
  fun s => Prog.within_bind (hx s) fun p => hf p.1 p.2

theorem within_lift {x : Prog E R α} (hx : x.Within P) :
    Within P (StateT.lift x : StateT σ (Prog E R) α) :=
  fun _ => Prog.within_bind hx fun _ => trivial

theorem within_effect {e : E} (h : P e) :
    Within P (StateT.lift (Prog.effect e) : StateT σ (Prog E R) (R e)) :=
  within_lift ⟨h, fun _ => trivial⟩

theorem within_get : Within P (get : StateT σ (Prog E R) σ) := fun _ => trivial

theorem within_set (s : σ) : Within P (set s : StateT σ (Prog E R) PUnit) := fun _ => trivial

theorem within_mono (hPQ : ∀ e, P e → Q e) {x : StateT σ (Prog E R) α} (hx : Within P x) :
    Within Q x := fun s => Prog.within_mono hPQ (hx s)

theorem returns_state_bind_iff {x : StateT σ (Prog E R) α} {f : α → StateT σ (Prog E R) β} {s : σ}
    {q : β × σ} : Returns ((x >>= f) s) q ↔ ∃ p, Returns (x s) p ∧ Returns (f p.1 p.2) q :=
  returns_bind_iff

theorem returns_lift_iff {x : Prog E R α} {s : σ} {p : α × σ} :
    Returns ((StateT.lift x : StateT σ (Prog E R) α) s) p ↔ Returns x p.1 ∧ p.2 = s := by
  constructor
  · intro h
    obtain ⟨a, ha, h⟩ := returns_bind_iff.1 h
    rw [returns_pure_iff.1 h]
    exact ⟨ha, rfl⟩
  · rintro ⟨ha, rfl⟩
    exact returns_bind_iff.2 ⟨p.1, ha, .pure p⟩

/-- The program leaves the state as it is. -/
def KeepsState (x : StateT σ (Prog E R) α) : Prop := ∀ s p, Returns (x s) p → p.2 = s

theorem keepsState_pure (a : α) : KeepsState (pure a : StateT σ (Prog E R) α) := by
  intro s p h
  rw [returns_pure_iff.1 h]

theorem keepsState_lift (x : Prog E R α) :
    KeepsState (StateT.lift x : StateT σ (Prog E R) α) :=
  fun _ _ h => (returns_lift_iff.1 h).2

theorem keepsState_bind {x : StateT σ (Prog E R) α} {f : α → StateT σ (Prog E R) β}
    (hx : KeepsState x) (hf : ∀ a, KeepsState (f a)) : KeepsState (x >>= f) := by
  intro s q h
  obtain ⟨p, hp, hq⟩ := returns_state_bind_iff.1 h
  rw [hf p.1 p.2 q hq, hx s p hp]

/-! ## With errors -/

theorem within_except_pure (a : α) :
    Within P (pure a : ExceptT ε (StateT σ (Prog E R)) α).run := fun _ => trivial

theorem within_throw (err : ε) :
    Within P (throw err : ExceptT ε (StateT σ (Prog E R)) α).run := fun _ => trivial

theorem within_except_bind {x : ExceptT ε (StateT σ (Prog E R)) α}
    {f : α → ExceptT ε (StateT σ (Prog E R)) β} (hx : Within P x.run)
    (hf : ∀ a, Within P (f a).run) : Within P (x >>= f).run := by
  refine within_bind hx fun result => ?_
  cases result with
  | ok a => exact hf a
  | error err => exact within_pure (Except.error err)

theorem within_except_lift {x : StateT σ (Prog E R) α} (hx : Within P x) :
    Within P (ExceptT.lift x : ExceptT ε (StateT σ (Prog E R)) α).run :=
  fun s => Prog.within_bind (hx s) fun _ => trivial

/-- Errors that are given another name. -/
theorem within_adapt {ε' : Type} (g : ε → ε') {x : ExceptT ε (StateT σ (Prog E R)) α}
    (hx : Within P x.run) : Within P (ExceptT.adapt g x).run :=
  fun s => Prog.within_bind (hx s) fun _ => trivial

end Effects
