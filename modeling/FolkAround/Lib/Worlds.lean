import FolkAround.Lib.Effects

/-!
# Programs in a world

A world says how an effect may be answered in a state, and what it makes of the state.
The answer need not be determined: an effect may fail, and do less than it was asked to.

* `World` — the relation between a state, an effect, its answer and the next state.
* `World.Finishes` — the ways in which a program can run to its end; `finishes_bind_iff`
  and its like compute them.
* `World.restrict` — the same world with some of the answers only.
* `finishes_except_bind_iff` — the rule for a program with errors.
-/

namespace Effects

/-- How effects are answered in a state, and the state after the answer. -/
abbrev World (E : Type) (R : E → Type) (S : Type) := S → (e : E) → R e → S → Prop

variable {E : Type} {R : E → Type} {S α β ε : Type}

namespace World

/-- The world in which some answers do not occur. -/
def restrict (W : World E R S) (Ok : (e : E) → R e → Prop) : World E R S :=
  fun s e r s' => W s e r s' ∧ Ok e r

/-- The program can run to its end with a result and a state. -/
inductive Finishes (W : World E R S) : Prog E R α → S → α → S → Prop where
  | pure (a : α) (s : S) : Finishes W (.pure a) s a s
  | perform {e : E} {k : R e → Prog E R α} {s s' s'' : S} {a : α} (r : R e) :
      W s e r s' → Finishes W (k r) s' a s'' → Finishes W (.perform e k) s a s''

variable {W : World E R S}

theorem finishes_pure_iff {a b : α} {s s' : S} :
    Finishes W (pure a : Prog E R α) s b s' ↔ b = a ∧ s' = s := by
  constructor
  · rintro ⟨⟩
    exact ⟨rfl, rfl⟩
  · rintro ⟨rfl, rfl⟩
    exact .pure b s'

theorem finishes_bind_iff {x : Prog E R α} {f : α → Prog E R β} {s s'' : S} {b : β} :
    Finishes W (x >>= f) s b s'' ↔
      ∃ a s', Finishes W x s a s' ∧ Finishes W (f a) s' b s'' := by
  induction x generalizing s with
  | pure a =>
      constructor
      · intro h
        exact ⟨a, s, .pure a s, h⟩
      · rintro ⟨_, _, ⟨⟩, h⟩
        exact h
  | perform e k ih =>
      constructor
      · rintro (_ | ⟨r, hr, h⟩)
        obtain ⟨a, s', ha, hb⟩ := (ih r).1 h
        exact ⟨a, s', .perform r hr ha, hb⟩
      · rintro ⟨a, s', _ | ⟨r, hr, ha⟩, hb⟩
        exact .perform r hr ((ih r).2 ⟨a, s', ha, hb⟩)

theorem finishes_effect_iff {e : E} {r : R e} {s s' : S} :
    Finishes W (Prog.effect e) s r s' ↔ W s e r s' := by
  constructor
  · rintro (_ | ⟨r, hr, ⟨⟩⟩)
    exact hr
  · intro h
    exact .perform r h (.pure r s')

/-- What can happen in a restricted world can happen. -/
theorem Finishes.of_restrict {Ok : (e : E) → R e → Prop} {x : Prog E R α} {s s' : S} {a : α}
    (h : Finishes (W.restrict Ok) x s a s') : Finishes W x s a s' := by
  induction h with
  | pure a s => exact .pure a s
  | perform r hr _ ih => exact .perform r hr.1 ih

/-! ## With errors -/

theorem finishes_except_pure_iff {a : α} {result : Except ε α} {s s' : S} :
    Finishes W (pure a : ExceptT ε (Prog E R) α).run s result s' ↔ result = .ok a ∧ s' = s :=
  finishes_pure_iff

theorem finishes_throw_iff {err : ε} {result : Except ε α} {s s' : S} :
    Finishes W (throw err : ExceptT ε (Prog E R) α).run s result s' ↔
      result = .error err ∧ s' = s :=
  finishes_pure_iff

theorem finishes_except_bind_iff {x : ExceptT ε (Prog E R) α} {f : α → ExceptT ε (Prog E R) β}
    {s s'' : S} {result : Except ε β} :
    Finishes W (x >>= f).run s result s'' ↔
      (∃ a s', Finishes W x.run s (.ok a) s' ∧ Finishes W (f a).run s' result s'') ∨
        ∃ err, Finishes W x.run s (.error err) s'' ∧ result = .error err := by
  refine Iff.trans finishes_bind_iff ?_
  constructor
  · rintro ⟨r, s', hx, h⟩
    cases r with
    | ok a => exact .inl ⟨a, s', hx, h⟩
    | error err =>
        obtain ⟨rfl, rfl⟩ := finishes_pure_iff.1 h
        exact .inr ⟨err, hx, rfl⟩
  · rintro (⟨a, s', hx, h⟩ | ⟨err, hx, rfl⟩)
    · exact ⟨.ok a, s', hx, h⟩
    · exact ⟨.error err, s'', hx, finishes_pure_iff.2 ⟨rfl, rfl⟩⟩

/-- A run that ends well went well all the way. -/
theorem finishes_except_bind_ok_iff {x : ExceptT ε (Prog E R) α}
    {f : α → ExceptT ε (Prog E R) β} {s s'' : S} {b : β} :
    Finishes W (x >>= f).run s (.ok b) s'' ↔
      ∃ a s', Finishes W x.run s (.ok a) s' ∧ Finishes W (f a).run s' (.ok b) s'' := by
  rw [finishes_except_bind_iff]
  constructor
  · rintro (h | ⟨err, -, herr⟩)
    · exact h
    · exact absurd herr (by simp)
  · exact .inl

/-- A program that certainly does not fail, and another one after it. -/
theorem finishes_except_bind_of_ok {x : ExceptT ε (Prog E R) α}
    {f : α → ExceptT ε (Prog E R) β} {P : S → α → S → Prop}
    (hx : ∀ s r s', Finishes W x.run s r s' ↔ ∃ a, r = .ok a ∧ P s a s') {s s'' : S}
    {result : Except ε β} :
    Finishes W (x >>= f).run s result s'' ↔
      ∃ a s', P s a s' ∧ Finishes W (f a).run s' result s'' := by
  rw [finishes_except_bind_iff]
  constructor
  · rintro (⟨a, s', ha, h⟩ | ⟨err, herr, -⟩)
    · obtain ⟨a', ha', hp⟩ := (hx ..).1 ha
      cases Except.ok.inj ha'
      exact ⟨a, s', hp, h⟩
    · obtain ⟨_, herr, -⟩ := (hx ..).1 herr
      exact absurd herr (by simp)
  · rintro ⟨a, s', hp, h⟩
    exact .inl ⟨a, s', (hx ..).2 ⟨a, rfl, hp⟩, h⟩

/-- A program that can only end in one way, and another one after it. -/
theorem finishes_except_bind_of_eq {x : ExceptT ε (Prog E R) α}
    {f : α → ExceptT ε (Prog E R) β} {a : α} {s s₁ s'' : S}
    (hx : ∀ r s', Finishes W x.run s r s' ↔ r = .ok a ∧ s' = s₁) {result : Except ε β} :
    Finishes W (x >>= f).run s result s'' ↔ Finishes W (f a).run s₁ result s'' := by
  rw [finishes_except_bind_iff]
  constructor
  · rintro (⟨b, s', hb, h⟩ | ⟨err, herr, -⟩)
    · obtain ⟨hb, rfl⟩ := (hx ..).1 hb
      cases Except.ok.inj hb
      exact h
    · exact absurd ((hx ..).1 herr).1 (by simp)
  · intro h
    exact .inl ⟨a, s₁, (hx ..).2 ⟨rfl, rfl⟩, h⟩

/-- A program that can only fail, and another one after it. -/
theorem finishes_except_bind_of_error {x : ExceptT ε (Prog E R) α}
    {f : α → ExceptT ε (Prog E R) β} {err : ε} {s s₁ s'' : S}
    (hx : ∀ r s', Finishes W x.run s r s' ↔ r = .error err ∧ s' = s₁) {result : Except ε β} :
    Finishes W (x >>= f).run s result s'' ↔ result = .error err ∧ s'' = s₁ := by
  rw [finishes_except_bind_iff]
  constructor
  · rintro (⟨b, s', hb, -⟩ | ⟨err', herr, rfl⟩)
    · exact absurd ((hx ..).1 hb).1 (by simp)
    · obtain ⟨herr, rfl⟩ := (hx ..).1 herr
      cases Except.error.inj herr
      exact ⟨rfl, rfl⟩
  · rintro ⟨rfl, rfl⟩
    exact .inr ⟨err, (hx ..).2 ⟨rfl, rfl⟩, rfl⟩

theorem finishes_except_lift_iff {x : Prog E R α} {result : Except ε α} {s s' : S} :
    Finishes W (ExceptT.lift x : ExceptT ε (Prog E R) α).run s result s' ↔
      ∃ a, Finishes W x s a s' ∧ result = .ok a := by
  refine Iff.trans finishes_bind_iff ?_
  constructor
  · rintro ⟨a, s'', hx, h⟩
    obtain ⟨rfl, rfl⟩ := finishes_pure_iff.1 h
    exact ⟨a, hx, rfl⟩
  · rintro ⟨a, hx, rfl⟩
    exact ⟨a, s', hx, finishes_pure_iff.2 ⟨rfl, rfl⟩⟩

end World

end Effects
