import FolkAround.Lib.Worlds

/-!
# Programs and what they were answered

A world can be made to write down every effect with its answer.  What a run leaves is
then the result, the state and the transcript.

* `Transcript`, `recorder`, `World.recording` — the transcript, by itself or beside the
  state of a world.
* `After` — what is left of a program after a transcript.
* `finishes_host_bind_iff` and its like — the ways to the end of a program with a state of
  its own and errors.
* `Ensures` — wherever the precondition holds, the program ends in the postcondition; the
  rules, one for each way to put such a program together.
-/

namespace Effects

variable {E : Type} {R : E → Type} {S σ α β ε : Type}

/-! ## Transcripts -/

/-- An effect and its answer. -/
structure Exchange (E : Type) (R : E → Type) where
  op : E
  answer : R op

abbrev Transcript (E : Type) (R : E → Type) := List (Exchange E R)

/-- Any answer may come, and is written down. -/
def recorder : World E R (Transcript E R) := fun t e r t' => t' = t ++ [⟨e, r⟩]

/-- After some effects and their answers, this is what is left of the program. -/
inductive After : Prog E R α → Transcript E R → Prog E R α → Prop where
  | here (x : Prog E R α) : After x [] x
  | answer {e : E} {k : R e → Prog E R α} {t : Transcript E R} {y : Prog E R α} (r : R e) :
      After (k r) t y → After (.perform e k) (⟨e, r⟩ :: t) y

theorem After.trans {x y z : Prog E R α} {t t' : Transcript E R} (h : After x t y)
    (h' : After y t' z) : After x (t ++ t') z := by
  induction h with
  | here x => exact h'
  | answer r _ ih => exact .answer r (ih h')

/-- The effects of a program with effects of a kind are of that kind. -/
theorem After.within {P : E → Prop} {x y : Prog E R α} {t : Transcript E R} (h : After x t y)
    (hx : x.Within P) : ∀ event ∈ t, P event.op := by
  induction h with
  | here x => exact fun event hevent => absurd hevent List.not_mem_nil
  | answer r _ ih =>
      intro event hevent
      rcases List.mem_cons.1 hevent with rfl | hevent
      · exact hx.1
      · exact ih (hx.2 r) event hevent

/-- A program whose effects so far are none, or the first with its answer and others. -/
theorem after_perform_iff {e : E} {k : R e → Prog E R α} {t : Transcript E R} {y : Prog E R α} :
    After (.perform e k) t y ↔
      (t = [] ∧ y = .perform e k) ∨ ∃ r t', t = ⟨e, r⟩ :: t' ∧ After (k r) t' y := by
  constructor
  · rintro (_ | ⟨r, h⟩)
    · exact .inl ⟨rfl, rfl⟩
    · exact .inr ⟨r, _, rfl, h⟩
  · rintro (⟨rfl, rfl⟩ | ⟨r, t', rfl, h⟩)
    · exact .here _
    · exact .answer r h

namespace World

/-- The same world, which writes down every answer. -/
def recording (W : World E R S) : World E R (S × Transcript E R) :=
  fun s e r s' => W s.1 e r s'.1 ∧ recorder s.2 e r s'.2

variable {W : World E R S}

/-- The first effect of a recorded run. -/
theorem Finishes.record {e : E} {k : R e → Prog E R α} {s s' : S} {t : Transcript E R}
    {s'' : S × Transcript E R} {a : α} (r : R e) (hr : W s e r s')
    (hk : Finishes W.recording (k r) (s', t ++ [⟨e, r⟩]) a s'') :
    Finishes W.recording (.perform e k) (s, t) a s'' :=
  have hstep : W.recording (s, t) e r (s', t ++ [⟨e, r⟩]) := ⟨hr, rfl⟩
  .perform r hstep hk

/-! ## A state of the program's own, and errors -/

variable {q q' q'' : σ} {s s' s'' : S}

theorem finishes_state_pure_iff {a : α} {p : α × σ} :
    Finishes W ((pure a : StateT σ (Prog E R) α) q) s p s' ↔ p = (a, q) ∧ s' = s :=
  finishes_pure_iff

theorem finishes_state_bind_iff {x : StateT σ (Prog E R) α} {f : α → StateT σ (Prog E R) β}
    {p : β × σ} :
    Finishes W ((x >>= f) q) s p s'' ↔
      ∃ a q' s', Finishes W (x q) s (a, q') s' ∧ Finishes W (f a q') s' p s'' := by
  refine Iff.trans finishes_bind_iff ?_
  constructor
  · rintro ⟨⟨a, q'⟩, s', hx, hf⟩
    exact ⟨a, q', s', hx, hf⟩
  · rintro ⟨a, q', s', hx, hf⟩
    exact ⟨(a, q'), s', hx, hf⟩

theorem finishes_state_lift_iff {x : Prog E R α} {p : α × σ} :
    Finishes W ((StateT.lift x : StateT σ (Prog E R) α) q) s p s' ↔
      Finishes W x s p.1 s' ∧ p.2 = q := by
  refine Iff.trans finishes_bind_iff ?_
  constructor
  · rintro ⟨a, s'', hx, hp⟩
    obtain ⟨rfl, rfl⟩ := finishes_pure_iff.1 hp
    exact ⟨hx, rfl⟩
  · rintro ⟨hx, rfl⟩
    exact ⟨p.1, s', hx, .pure p s'⟩

theorem finishes_host_pure_iff {a : α} {p : Except ε α × σ} :
    Finishes W ((pure a : ExceptT ε (StateT σ (Prog E R)) α).run q) s p s' ↔
      p = (.ok a, q) ∧ s' = s :=
  finishes_pure_iff

theorem finishes_host_throw_iff {err : ε} {p : Except ε α × σ} :
    Finishes W ((throw err : ExceptT ε (StateT σ (Prog E R)) α).run q) s p s' ↔
      p = (.error err, q) ∧ s' = s :=
  finishes_pure_iff

theorem finishes_host_bind_iff {x : ExceptT ε (StateT σ (Prog E R)) α}
    {f : α → ExceptT ε (StateT σ (Prog E R)) β} {result : Except ε β} :
    Finishes W ((x >>= f).run q) s (result, q'') s'' ↔
      (∃ a q' s', Finishes W (x.run q) s (.ok a, q') s' ∧
        Finishes W ((f a).run q') s' (result, q'') s'') ∨
      ∃ err, Finishes W (x.run q) s (.error err, q'') s'' ∧ result = .error err := by
  refine Iff.trans finishes_state_bind_iff ?_
  constructor
  · rintro ⟨r, q', s', hx, h⟩
    cases r with
    | ok a => exact .inl ⟨a, q', s', hx, h⟩
    | error err =>
        obtain ⟨hp, rfl⟩ := finishes_state_pure_iff.1 h
        obtain ⟨rfl, rfl⟩ := Prod.mk.inj hp
        exact .inr ⟨err, hx, rfl⟩
  · rintro (⟨a, q', s', hx, h⟩ | ⟨err, hx, rfl⟩)
    · exact ⟨.ok a, q', s', hx, h⟩
    · exact ⟨.error err, q'', s'', hx, finishes_state_pure_iff.2 ⟨rfl, rfl⟩⟩

theorem finishes_host_lift_iff {x : StateT σ (Prog E R) α} {result : Except ε α} :
    Finishes W ((ExceptT.lift x : ExceptT ε (StateT σ (Prog E R)) α).run q) s (result, q') s' ↔
      ∃ a, result = .ok a ∧ Finishes W (x q) s (a, q') s' := by
  refine Iff.trans finishes_bind_iff ?_
  constructor
  · rintro ⟨⟨a, q''⟩, s'', hx, h⟩
    obtain ⟨hp, rfl⟩ := finishes_pure_iff.1 h
    obtain ⟨rfl, rfl⟩ := Prod.mk.inj hp
    exact ⟨a, rfl, hx⟩
  · rintro ⟨a, rfl, hx⟩
    exact ⟨(a, q'), s', hx, finishes_pure_iff.2 ⟨rfl, rfl⟩⟩

/-- One effect of such a program. -/
theorem finishes_host_effect_iff {e : E} {result : Except ε (R e)} :
    Finishes W ((ExceptT.lift (StateT.lift (Prog.effect e)) :
      ExceptT ε (StateT σ (Prog E R)) (R e)).run q) s (result, q') s' ↔
        ∃ r, result = .ok r ∧ W s e r s' ∧ q' = q := by
  rw [finishes_host_lift_iff]
  constructor
  · rintro ⟨r, hr, h⟩
    obtain ⟨he, hq⟩ := finishes_state_lift_iff.1 h
    exact ⟨r, hr, finishes_effect_iff.1 he, hq⟩
  · rintro ⟨r, hr, he, hq⟩
    exact ⟨r, hr, finishes_state_lift_iff.2 ⟨finishes_effect_iff.2 he, hq⟩⟩

/-- One effect, and what comes after it. -/
theorem finishes_host_effect_bind_iff {e : E} {f : R e → ExceptT ε (StateT σ (Prog E R)) β}
    {result : Except ε β} :
    Finishes W (((ExceptT.lift (StateT.lift (Prog.effect e)) :
      ExceptT ε (StateT σ (Prog E R)) (R e)) >>= f).run q) s (result, q'') s'' ↔
        ∃ r s', W s e r s' ∧ Finishes W ((f r).run q) s' (result, q'') s'' := by
  rw [finishes_host_bind_iff]
  constructor
  · rintro (⟨r, q', s', hx, h⟩ | ⟨err, herr, -⟩)
    · obtain ⟨_, hr, he, rfl⟩ := finishes_host_effect_iff.1 hx
      cases hr
      exact ⟨r, s', he, h⟩
    · obtain ⟨_, hr, -⟩ := finishes_host_effect_iff.1 herr
      exact absurd hr (by simp)
  · rintro ⟨r, s', he, h⟩
    exact .inl ⟨r, q, s', finishes_host_effect_iff.2 ⟨r, rfl, he, rfl⟩, h⟩

end World

/-! ## Before and after -/

section

variable (W : World E R S)

/-- From where `P` holds, the program ends with a result and a state that meet `Q`. -/
def Ensures (P : S → Prop) (x : ExceptT ε (StateT σ (Prog E R)) α) (Q : Except ε α → S → Prop) :
    Prop :=
  ∀ q s, P s → ∀ r q' s', W.Finishes (x.run q) s (r, q') s' → Q r s'

variable {W} {P P' : S → Prop} {Q : Except ε α → S → Prop}

theorem ensures_pure {a : α} (h : ∀ s, P s → Q (.ok a) s) :
    Ensures W P (pure a : ExceptT ε (StateT σ (Prog E R)) α) Q := by
  intro q s hs r q' s' hx
  obtain ⟨hp, rfl⟩ := World.finishes_host_pure_iff.1 hx
  obtain ⟨rfl, rfl⟩ := Prod.mk.inj hp
  exact h s' hs

theorem ensures_throw {err : ε} (h : ∀ s, P s → Q (.error err) s) :
    Ensures W P (throw err : ExceptT ε (StateT σ (Prog E R)) α) Q := by
  intro q s hs r q' s' hx
  obtain ⟨hp, rfl⟩ := World.finishes_host_throw_iff.1 hx
  obtain ⟨rfl, rfl⟩ := Prod.mk.inj hp
  exact h s' hs

theorem ensures_bind {x : ExceptT ε (StateT σ (Prog E R)) α}
    {f : α → ExceptT ε (StateT σ (Prog E R)) β} {T : Except ε β → S → Prop}
    (hx : Ensures W P x Q) (hf : ∀ a, Ensures W (Q (.ok a)) (f a) T)
    (herr : ∀ err s, Q (.error err) s → T (.error err) s) : Ensures W P (x >>= f) T := by
  intro q s hs r q'' s'' h
  rcases World.finishes_host_bind_iff.1 h with ⟨a, q', s', ha, h⟩ | ⟨err, ha, rfl⟩
  · exact hf a q' s' (hx q s hs _ q' s' ha) r q'' s'' h
  · exact herr err s'' (hx q s hs _ q'' s'' ha)

/-- One effect, and what comes after each of its answers. -/
theorem ensures_effect_bind {e : E} {f : R e → ExceptT ε (StateT σ (Prog E R)) α}
    (hf : ∀ r, Ensures W (fun s' => ∃ s, P s ∧ W s e r s') (f r) Q) :
    Ensures W P ((ExceptT.lift (StateT.lift (Prog.effect e)) :
      ExceptT ε (StateT σ (Prog E R)) (R e)) >>= f) Q := by
  intro q s hs r q' s' hx
  obtain ⟨a, s₁, he, h⟩ := World.finishes_host_effect_bind_iff.1 hx
  exact hf a q s₁ ⟨s, hs, he⟩ r q' s' h

theorem ensures_weaken {x : ExceptT ε (StateT σ (Prog E R)) α} (hP : ∀ s, P s → P' s)
    (hx : Ensures W P' x Q) : Ensures W P x Q :=
  fun q s hs => hx q s (hP s hs)

theorem ensures_adapt {ε' : Type} {g : ε → ε'} {x : ExceptT ε (StateT σ (Prog E R)) α}
    {T : Except ε' α → S → Prop} (hx : Ensures W P x Q) (hok : ∀ a s, Q (.ok a) s → T (.ok a) s)
    (herr : ∀ err s, Q (.error err) s → T (.error (g err)) s) :
    Ensures W P (ExceptT.adapt g x) T := by
  intro q s hs r q' s' h
  obtain ⟨⟨r', q''⟩, s'', hr, h⟩ := World.finishes_bind_iff.1 h
  obtain ⟨hp, rfl⟩ := World.finishes_pure_iff.1 h
  obtain ⟨rfl, rfl⟩ := Prod.mk.inj hp
  have hq := hx q s hs _ _ _ hr
  cases r' with
  | ok a => exact hok a s' hq
  | error err => exact herr err s' hq

/-- What no effect of a kind makes false, no program with effects of this kind does. -/
theorem ensures_of_within {Kind : E → Prop} {x : ExceptT ε (StateT σ (Prog E R)) α}
    (hx : Within Kind x.run) (hkeep : ∀ s e r s', Kind e → P s → W s e r s' → P s') :
    Ensures W P x fun _ => P := by
  have hprog : ∀ {γ : Type} (y : Prog E R γ), y.Within Kind → ∀ s a s', P s →
      W.Finishes y s a s' → P s' := by
    intro γ y hy s a s' hs h
    induction h with
    | pure a s => exact hs
    | perform r hr _ ih => exact ih (hy.2 r) (hkeep _ _ _ _ hy.1 hs hr)
  exact fun q s hs r q' s' h => hprog _ (hx q) s _ s' hs h

end

end Effects
