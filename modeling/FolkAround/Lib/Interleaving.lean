import Mathlib.Logic.Function.Basic
import Mathlib.Logic.Relation
import FolkAround.Lib.Worlds

/-!
# Programs that share a world

Any number of programs perform their effects on one state, one effect at a time and in
any order.  A program may stop for good at any point: it is then never chosen again.

* `Pool`, `Step`, `Reaches` — the programs with the state and the trace of all effects
  so far.
* `Conduct` — an invariant of state and trace, and what the others may do between two
  effects of a program; `Guarantee` — what a program owes to the others in return.
* `Safe`, `Triple` — a program keeps its guarantee and ends with a result that meets an
  assertion, whatever the others do; the rules, one for each way to put a program
  together.
* `reaches_safe` — if every program is safe by itself, all of them are safe together.
* `Prog.Rest` — what is left of a program; `Step.same_or_perform`, `Reaches.rest` — what a step
  and a run of the pool are to one of its programs.
* `reaches_of_finishes` — one way to go on: a program runs to its end while the others wait.
-/

namespace Effects

variable {ι E S α β ε : Type} {R : E → Type}

/-! ## State and trace -/

/-- An effect that was performed, by whom, and its answer. -/
structure Event (ι E : Type) (R : E → Type) where
  who : ι
  op : E
  answer : R op

/-- The state, and what was done to it so far. -/
abbrev Seen (ι E : Type) (R : E → Type) (S : Type) := S × List (Event ι E R)

/-- The state after an effect. -/
def Seen.next (s : Seen ι E R S) (i : ι) (e : E) (r : R e) (s' : S) : Seen ι E R S :=
  (s', s.2 ++ [⟨i, e, r⟩])

/-! ## Conduct -/

/-- What a group of programs agrees on. -/
structure Conduct (ι E : Type) (R : E → Type) (S : Type) where
  invariant : Seen ι E R S → Prop
  /-- What the others may do while the program waits. -/
  interference : ι → Seen ι E R S → Seen ι E R S → Prop

namespace Conduct

variable (C : Conduct ι E R S) (W : World E R S)

/-- What the others have done while the program waited. -/
def Waits (i : ι) : Seen ι E R S → Seen ι E R S → Prop :=
  Relation.ReflTransGen fun s s' => C.invariant s' ∧ C.interference i s s'

/-- What an effect of one program may do to the others. -/
structure Guarantee (i : ι) (s s' : Seen ι E R S) : Prop where
  invariant : C.invariant s'
  interference : ∀ j, j ≠ i → C.interference j s s'

/-- The others do not make the assertion false. -/
def Stable (i : ι) (P : Seen ι E R S → Prop) : Prop :=
  ∀ s s', C.invariant s → C.invariant s' → C.interference i s s' → P s → P s'

/-- Whatever the others do, the program keeps its guarantee and ends in the assertion. -/
def Safe (i : ι) (Q : α → Seen ι E R S → Prop) : Prog E R α → Seen ι E R S → Prop
  | .pure a, s => ∀ s₁, C.Waits i s s₁ → Q a s₁
  | .perform e k, s => ∀ s₁, C.Waits i s s₁ → ∀ r s₂, W s₁.1 e r s₂ →
      C.Guarantee i s₁ (s₁.next i e r s₂) ∧ Safe i Q (k r) (s₁.next i e r s₂)

/-- The program is safe wherever the precondition holds. -/
def Triple (i : ι) (P : Seen ι E R S → Prop) (x : Prog E R α)
    (Q : α → Seen ι E R S → Prop) : Prop :=
  ∀ s, C.invariant s → P s → C.Safe W i Q x s

variable {C W} {i : ι} {P : Seen ι E R S → Prop} {Q : α → Seen ι E R S → Prop}

theorem Waits.invariant {s s' : Seen ι E R S} (h : C.Waits i s s') (hs : C.invariant s) :
    C.invariant s' := by
  induction h with
  | refl => exact hs
  | tail _ hstep _ => exact hstep.1

theorem Stable.waits (hP : C.Stable i P) {s s' : Seen ι E R S} (h : C.Waits i s s')
    (hs : C.invariant s) (hp : P s) : P s' := by
  induction h with
  | refl => exact hp
  | tail hw hstep ih => exact hP _ _ (Waits.invariant hw hs) hstep.1 hstep.2 ih

theorem Stable.and {P' : Seen ι E R S → Prop} (hP : C.Stable i P) (hP' : C.Stable i P') :
    C.Stable i fun s => P s ∧ P' s :=
  fun s s' hs hs' hstep hp => ⟨hP s s' hs hs' hstep hp.1, hP' s s' hs hs' hstep hp.2⟩

theorem stable_const (fact : Prop) : C.Stable i fun _ => fact := fun _ _ _ _ _ hp => hp

theorem stable_exists {γ : Type} {P : γ → Seen ι E R S → Prop} (hP : ∀ c, C.Stable i (P c)) :
    C.Stable i fun s => ∃ c, P c s :=
  fun s s' hs hs' hstep ⟨c, hp⟩ => ⟨c, hP c s s' hs hs' hstep hp⟩

/-- A waiting program stays safe. -/
theorem Safe.waits {x : Prog E R α} {s s' : Seen ι E R S} (hx : C.Safe W i Q x s)
    (h : C.Waits i s s') : C.Safe W i Q x s' := by
  cases x with
  | pure a => exact fun s₁ h₁ => hx s₁ (h.trans h₁)
  | perform e k => exact fun s₁ h₁ => hx s₁ (h.trans h₁)

theorem triple_pure (a : α) (hQ : C.Stable i (Q a)) : C.Triple W i (Q a) (pure a) Q :=
  fun _ hs hq _ hw => hQ.waits hw hs hq

theorem triple_bind {x : Prog E R α} {f : α → Prog E R β} {T : β → Seen ι E R S → Prop}
    (hx : C.Triple W i P x Q) (hf : ∀ a, C.Triple W i (Q a) (f a) T) :
    C.Triple W i P (x >>= f) T := by
  have hsafe : ∀ (x : Prog E R α) (s : Seen ι E R S), C.invariant s → C.Safe W i Q x s →
      C.Safe W i T (x >>= f) s := by
    intro x
    induction x with
    | pure a => exact fun s hs hq => hf a s hs (hq s .refl)
    | perform e k ih =>
        intro s hs hk s₁ hw r s₂ hr
        obtain ⟨hguarantee, hrest⟩ := hk s₁ hw r s₂ hr
        exact ⟨hguarantee, ih r _ hguarantee.invariant hrest⟩
  exact fun s hs hp => hsafe x s hs (hx s hs hp)

/-- One effect: it must not harm the others, and its result must bear waiting. -/
theorem triple_effect {e : E} {Q : R e → Seen ι E R S → Prop} (hP : C.Stable i P)
    (hQ : ∀ r, C.Stable i (Q r))
    (h : ∀ s r s', C.invariant s → P s → W s.1 e r s' →
      C.Guarantee i s (s.next i e r s') ∧ Q r (s.next i e r s')) :
    C.Triple W i P (Prog.effect e) Q := by
  intro s hs hp s₁ hw r s₂ hr
  obtain ⟨hguarantee, hq⟩ := h s₁ r s₂ (hw.invariant hs) (hP.waits hw hs hp) hr
  exact ⟨hguarantee, fun s₃ hw' => (hQ r).waits hw' hguarantee.invariant hq⟩

/-- A value the program does not know may be named in its assertions. -/
theorem triple_exists {γ : Type} {P : γ → Seen ι E R S → Prop} {x : Prog E R α}
    (h : ∀ c, C.Triple W i (P c) x Q) : C.Triple W i (fun s => ∃ c, P c s) x Q :=
  fun s hs ⟨c, hp⟩ => h c s hs hp

/-- What does not depend on the state may be assumed. -/
theorem triple_assuming {fact : Prop} {x : Prog E R α} (h : fact → C.Triple W i P x Q) :
    C.Triple W i (fun s => fact ∧ P s) x Q :=
  fun s hs ⟨hfact, hp⟩ => h hfact s hs hp

theorem triple_weaken {T : Seen ι E R S → Prop} {x : Prog E R α}
    (hP : ∀ s, C.invariant s → P s → T s) (hx : C.Triple W i T x Q) : C.Triple W i P x Q :=
  fun s hs hp => hx s hs (hP s hs hp)

theorem triple_post {Q' : α → Seen ι E R S → Prop} {x : Prog E R α}
    (hQ : ∀ a s, Q a s → Q' a s) (hx : C.Triple W i P x Q) : C.Triple W i P x Q' := by
  have hsafe : ∀ (x : Prog E R α) (s : Seen ι E R S), C.Safe W i Q x s → C.Safe W i Q' x s := by
    intro x
    induction x with
    | pure a => exact fun s h s₁ hw => hQ a s₁ (h s₁ hw)
    | perform e k ih =>
        intro s h s₁ hw r s₂ hr
        obtain ⟨hguarantee, hrest⟩ := h s₁ hw r s₂ hr
        exact ⟨hguarantee, ih r _ hrest⟩
  exact fun s hs hp => hsafe x s (hx s hs hp)

/-! ## With errors -/

/-- An assertion on the results that are no errors. -/
def OnOk (Q : α → Seen ι E R S → Prop) : Except ε α → Seen ι E R S → Prop
  | .ok a => Q a
  | .error _ => fun _ => True

theorem stable_onOk {Q : α → Seen ι E R S → Prop} (hQ : ∀ a, C.Stable i (Q a))
    (r : Except ε α) : C.Stable i (OnOk Q r) := by
  cases r with
  | ok a => exact hQ a
  | error err => exact fun _ _ _ _ _ _ => trivial

theorem triple_except_pure (a : α) (hQ : C.Stable i (Q a)) :
    C.Triple W i (Q a) (pure a : ExceptT ε (Prog E R) α).run (OnOk Q) :=
  fun _ hs hq _ hw => hQ.waits hw hs hq

theorem triple_throw (err : ε) :
    C.Triple W i P (throw err : ExceptT ε (Prog E R) α).run (OnOk Q) :=
  fun _ _ _ _ _ => trivial

theorem triple_except_bind {x : ExceptT ε (Prog E R) α} {f : α → ExceptT ε (Prog E R) β}
    {T : β → Seen ι E R S → Prop} (hx : C.Triple W i P x.run (OnOk Q))
    (hf : ∀ a, C.Triple W i (Q a) (f a).run (OnOk T)) :
    C.Triple W i P (x >>= f).run (OnOk T) := by
  refine triple_bind hx fun r => ?_
  cases r with
  | ok a => exact hf a
  | error err => exact fun _ _ _ _ _ => trivial

theorem triple_except_lift {x : Prog E R α} (hQ : ∀ a, C.Stable i (Q a))
    (hx : C.Triple W i P x Q) :
    C.Triple W i P (ExceptT.lift x : ExceptT ε (Prog E R) α).run (OnOk Q) :=
  triple_bind hx fun a _ hs hq _ hw => (hQ a).waits hw hs hq

end Conduct

/-! ## What is left of a program -/

/-- What is left of a program when some of its effects are answered. -/
inductive Prog.Rest : Prog E R α → Prog E R α → Prop where
  | refl (x : Prog E R α) : Rest x x
  | answer {e : E} {k : R e → Prog E R α} {y : Prog E R α} (r : R e) :
      Rest (k r) y → Rest (.perform e k) y

/-- One more effect. -/
theorem Prog.Rest.perform {x : Prog E R α} {e : E} {k : R e → Prog E R α}
    (h : x.Rest (.perform e k)) (r : R e) : x.Rest (k r) := by
  generalize hy : Prog.perform e k = y at h
  induction h with
  | refl x =>
      subst hy
      exact .answer r (.refl _)
  | answer r' _ ih => exact .answer r' (ih hy)

/-! ## Pools -/

structure Pool (ι E : Type) (R : E → Type) (S α : Type) where
  progs : ι → Prog E R α
  seen : Seen ι E R S

/-- The same program for everyone. -/
def Pool.start (x : Prog E R α) (s : S) : Pool ι E R S α := ⟨fun _ => x, (s, [])⟩

section

variable [DecidableEq ι] (W : World E R S)

/-- One of the programs performs its next effect. -/
inductive Step (c : Pool ι E R S α) : Pool ι E R S α → Prop where
  | perform {i : ι} {e : E} {k : R e → Prog E R α} (r : R e) {s' : S} :
      c.progs i = .perform e k → W c.seen.1 e r s' →
      Step c ⟨Function.update c.progs i (k r), c.seen.next i e r s'⟩

/-- Some of the programs perform some of their effects. -/
def Reaches : Pool ι E R S α → Pool ι E R S α → Prop := Relation.ReflTransGen (Step W)

variable {W}

/-- A program that has ended stays as it is. -/
theorem Reaches.ended {c c' : Pool ι E R S α} (h : Reaches W c c') {i : ι} {a : α}
    (hi : c.progs i = .pure a) : c'.progs i = .pure a := by
  induction h with
  | refl => exact hi
  | tail _ hstep ih =>
      obtain ⟨r, hj, hr⟩ := hstep
      rename_i j e k s'
      by_cases hij : i = j
      · rw [← hij, ih] at hj
        exact absurd hj (by simp)
      · exact (Function.update_of_ne hij ..).trans ih

/-- A program may run to its end while the others wait. -/
theorem reaches_of_finishes {x : Prog E R α} {s s' : S} {a : α} (h : W.Finishes x s a s')
    {c : Pool ι E R S α} {i : ι} (hi : c.progs i = x) (hs : c.seen.1 = s) :
    ∃ c', Reaches W c c' ∧ c'.progs i = .pure a ∧ c'.seen.1 = s' ∧
      ∀ j, j ≠ i → c'.progs j = c.progs j := by
  induction h generalizing c with
  | pure a s => exact ⟨c, .refl, hi, hs, fun _ _ => rfl⟩
  | @perform e k s s' s'' a r hr _ ih =>
      subst hs
      obtain ⟨c', hreaches, hend, hs', hothers⟩ :=
        @ih ⟨Function.update c.progs i (k r), c.seen.next i e r s'⟩ (Function.update_self ..) rfl
      refine ⟨c', .head (.perform r hi hr) hreaches, hend, hs', fun j hj => ?_⟩
      exact (hothers j hj).trans (Function.update_of_ne hj ..)

/-- A step as one of the programs sees it: it waits, or the step is its own. -/
theorem Step.same_or_perform {c c' : Pool ι E R S α} (h : Step W c c') {i : ι} {e : E}
    {k : R e → Prog E R α} (hi : c.progs i = .perform e k) :
    c'.progs i = .perform e k ∨ ∃ r s', W c.seen.1 e r s' ∧
      c' = ⟨Function.update c.progs i (k r), c.seen.next i e r s'⟩ := by
  obtain ⟨r, hj, hr⟩ := h
  rename_i j e' k' s'
  by_cases hij : i = j
  · subst hij
    rw [hi] at hj
    cases hj
    exact .inr ⟨r, s', hr, rfl⟩
  · exact .inl ((Function.update_of_ne hij ..).trans hi)

/-- A program of the pool becomes what is left of it. -/
theorem Reaches.rest {c c' : Pool ι E R S α} (h : Reaches W c c') (i : ι) :
    (c.progs i).Rest (c'.progs i) := by
  induction h with
  | refl => exact .refl _
  | @tail c₁ _ _ hstep ih =>
      obtain ⟨r, hj, hr⟩ := hstep
      rename_i j e k s'
      show (c.progs i).Rest (Function.update c₁.progs j (k r) i)
      by_cases hij : i = j
      · subst hij
        rw [Function.update_self]
        rw [hj] at ih
        exact ih.perform r
      · rw [Function.update_of_ne hij]
        exact ih

theorem start_reaches_of_finishes (i : ι) {x : Prog E R α} {s s' : S} {a : α}
    (h : W.Finishes x s a s') :
    ∃ c, Reaches W (.start x s) c ∧ c.progs i = .pure a ∧ c.seen.1 = s' ∧
      ∀ j, j ≠ i → c.progs j = x := reaches_of_finishes h rfl rfl

/-- **Safe programs are safe together.**  In every state that a pool reaches the
invariant holds, and every program is still safe. -/
theorem reaches_safe {C : Conduct ι E R S} {Q : ι → α → Seen ι E R S → Prop}
    {c c' : Pool ι E R S α} (h : Reaches W c c') (hinv : C.invariant c.seen)
    (hsafe : ∀ i, C.Safe W i (Q i) (c.progs i) c.seen) :
    C.invariant c'.seen ∧ ∀ i, C.Safe W i (Q i) (c'.progs i) c'.seen := by
  induction h with
  | refl => exact ⟨hinv, hsafe⟩
  | tail _ hstep ih =>
      obtain ⟨-, hsafe⟩ := ih
      obtain ⟨r, hj, hr⟩ := hstep
      rename_i j e k s'
      have hown := hsafe j
      rw [hj] at hown
      obtain ⟨hguarantee, hrest⟩ := hown _ .refl r _ hr
      refine ⟨hguarantee.invariant, fun i => ?_⟩
      by_cases hij : i = j
      · subst hij
        simp only [Function.update_self]
        exact hrest
      · simp only [Function.update_of_ne hij]
        exact (hsafe i).waits (.single ⟨hguarantee.invariant, hguarantee.interference i hij⟩)

/-- What a program of the pool has ended with meets its assertion. -/
theorem reaches_result {C : Conduct ι E R S} {Q : ι → α → Seen ι E R S → Prop}
    {c c' : Pool ι E R S α} (h : Reaches W c c') (hinv : C.invariant c.seen)
    (hsafe : ∀ i, C.Safe W i (Q i) (c.progs i) c.seen) {i : ι} {a : α}
    (hi : c'.progs i = .pure a) : Q i a c'.seen := by
  have hend := (reaches_safe h hinv hsafe).2 i
  rw [hi] at hend
  exact hend _ .refl

end

end Effects
