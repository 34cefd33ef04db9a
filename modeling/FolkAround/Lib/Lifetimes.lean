import FolkAround.Lib.Transcript

/-!
# Programs that are started again and again

A program is started with some input, runs for a while in a world and is stopped wherever it
is; then it is started again, in the world as the last run has left it.

* `World.Traces` — the effects of a transcript, with their answers, happen in the world.
* `Start` — a run from its input up to where it is stopped.
* `Chain` — one thing after the other; `World.Lifetime` — starts one after the other.
* `Chain.refines`, `Chain.invariant` — the refinement rule, and the rule for invariants.
* `finishes_keep`, `traces_keep` — what no effect of a kind changes is not changed.
-/

namespace Effects

variable {E : Type} {R : E → Type} {S T α ι : Type}

/-! ## Chains -/

/-- Steps with the inputs of a list, one after the other. -/
inductive Chain {X : Type} (step : X → S → S → Prop) : S → List X → S → Prop where
  | nil (s : S) : Chain step s [] s
  | cons {x : X} {xs : List X} {s s' s'' : S} :
      step x s s' → Chain step s' xs s'' → Chain step s (x :: xs) s''

/-- **The refinement rule.**  If every step from related states can be followed by a step that
leads to related states again, so can a chain of steps. -/
theorem Chain.refines {X : Type} {step : X → S → S → Prop} {step' : X → T → T → Prop}
    {Ok : X → Prop} {Rel : S → T → Prop}
    (h : ∀ x s s' t, Ok x → Rel s t → step x s s' → ∃ t', step' x t t' ∧ Rel s' t')
    {xs : List X} {s s' : S} {t : T} (hok : ∀ x ∈ xs, Ok x) (hrel : Rel s t)
    (hchain : Chain step s xs s') : ∃ t', Chain step' t xs t' ∧ Rel s' t' := by
  induction hchain generalizing t with
  | nil s => exact ⟨t, .nil t, hrel⟩
  | @cons x xs s s' s'' hstep _ ih =>
      obtain ⟨t', hstep', hrel'⟩ := h x s s' t (hok x List.mem_cons_self) hrel hstep
      obtain ⟨t'', hchain', hrel''⟩ := ih (fun y hy => hok y (List.mem_cons_of_mem x hy)) hrel'
      exact ⟨t'', .cons hstep' hchain', hrel''⟩

/-- **The invariant rule.**  What every step keeps, and what it shows by that. -/
theorem Chain.invariant {X : Type} {step : X → S → S → Prop} {Ok Shown : X → Prop} {Inv : S → Prop}
    (h : ∀ x s s', Ok x → Inv s → step x s s' → Inv s' ∧ Shown x) {xs : List X} {s s' : S}
    (hok : ∀ x ∈ xs, Ok x) (hinv : Inv s) (hchain : Chain step s xs s') :
    Inv s' ∧ ∀ x ∈ xs, Shown x := by
  induction hchain with
  | nil s => exact ⟨hinv, fun _ hx => absurd hx List.not_mem_nil⟩
  | @cons x xs s s' s'' hstep _ ih =>
      obtain ⟨hinv', hshown⟩ := h x s s' (hok x List.mem_cons_self) hinv hstep
      obtain ⟨hinv'', hrest⟩ := ih (fun y hy => hok y (List.mem_cons_of_mem x hy)) hinv'
      refine ⟨hinv'', ?_⟩
      intro y hy
      rcases List.mem_cons.1 hy with rfl | hy
      · exact hshown
      · exact hrest y hy

/-! ## Starts -/

/-- A run of the program for an input: what it did, and what was left of it. -/
structure Start (program : ι → Prog E R α) where
  input : ι
  transcript : Transcript E R
  rest : Prog E R α
  after : After (program input) transcript rest

namespace World

/-- The effects happen with these answers, one after the other. -/
inductive Traces (W : World E R S) : S → Transcript E R → S → Prop where
  | nil (s : S) : Traces W s [] s
  | cons {e : E} {r : R e} {t : Transcript E R} {s s' s'' : S} :
      W s e r s' → Traces W s' t s'' → Traces W s (⟨e, r⟩ :: t) s''

/-- Starts of a program one after the other, in one world. -/
abbrev Lifetime (W : World E R S) (program : ι → Prog E R α) : S → List (Start program) → S → Prop :=
  Chain fun x s s' => Traces W s x.transcript s'

variable {W : World E R S}

theorem traces_cons_iff {event : Exchange E R} {t : Transcript E R} {s s'' : S} :
    Traces W s (event :: t) s'' ↔ ∃ s', W s event.op event.answer s' ∧ Traces W s' t s'' := by
  constructor
  · rintro (_ | ⟨hstep, hrest⟩)
    exact ⟨_, hstep, hrest⟩
  · rintro ⟨s', hstep, hrest⟩
    exact .cons hstep hrest

theorem traces_append_iff {t t' : Transcript E R} {s s'' : S} :
    Traces W s (t ++ t') s'' ↔ ∃ s', Traces W s t s' ∧ Traces W s' t' s'' := by
  induction t generalizing s with
  | nil =>
      constructor
      · intro h
        exact ⟨s, .nil s, h⟩
      · rintro ⟨_, ⟨⟩, h⟩
        exact h
  | cons event t ih =>
      rw [List.cons_append, traces_cons_iff]
      constructor
      · rintro ⟨s₁, hstep, hrest⟩
        obtain ⟨s', ht, ht'⟩ := ih.1 hrest
        exact ⟨s', traces_cons_iff.2 ⟨s₁, hstep, ht⟩, ht'⟩
      · rintro ⟨s', ht, ht'⟩
        obtain ⟨s₁, hstep, hrest⟩ := traces_cons_iff.1 ht
        exact ⟨s₁, hstep, ih.2 ⟨s', hrest, ht'⟩⟩

/-- Every exchange of a transcript has happened. -/
theorem traces_mem {t : Transcript E R} {s s' : S} (h : Traces W s t s') :
    ∀ event ∈ t, ∃ s₁ s₂, W s₁ event.op event.answer s₂ := by
  induction h with
  | nil s => exact fun _ hevent => absurd hevent List.not_mem_nil
  | cons hstep _ ih =>
      intro event hevent
      rcases List.mem_cons.1 hevent with rfl | hevent
      · exact ⟨_, _, hstep⟩
      · exact ih event hevent

/-! ## What is not changed -/

variable {View : Type} (view : S → View)

/-- A program with effects of a kind keeps what they keep. -/
theorem finishes_keep {Kind : E → Prop} (hkeep : ∀ s e r s', Kind e → W s e r s' → view s' = view s)
    {x : Prog E R α} (hx : x.Within Kind) {s s' : S} {a : α} (h : Finishes W x s a s') :
    view s' = view s := by
  induction h with
  | pure a s => rfl
  | perform r hr _ ih => exact (ih (hx.2 r)).trans (hkeep _ _ _ _ hx.1 hr)

/-- A transcript with exchanges of a kind keeps what they keep. -/
theorem traces_keep {Kind : Exchange E R → Prop} {t : Transcript E R} {s s' : S}
    (hkeep : ∀ s event s', Kind event → W s event.op event.answer s' → view s' = view s)
    (ht : ∀ event ∈ t, Kind event) (h : Traces W s t s') : view s' = view s := by
  induction h with
  | nil s => rfl
  | cons hstep _ ih =>
      have hrest := ih fun event hevent => ht event (List.mem_cons_of_mem _ hevent)
      exact hrest.trans (hkeep _ _ _ (ht _ List.mem_cons_self) hstep)

end World

end Effects
