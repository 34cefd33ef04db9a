import FolkAround.Lib.Transcript

/-!
# Effects in the light of what came before

Whether an effect may be performed can depend on all effects before it and what they were
answered: that something was looked up first, and what was found.

* `Prog.Along` — every effect meets a condition on the transcript up to it, and the result
  one on the whole transcript.
* `Prog.Along.after` — this is about every moment of every run.
* `after_bind_perform` — whose effect it is when one program follows another.
* `Guards` — the same for programs with a state, from a precondition on it; its rules, one
  for each way to put a program together, with errors or without.
* `Minds` — the case of an invariant; `Yields` — an invariant, and more if nothing failed.
-/

namespace Effects

variable {E : Type} {R : E → Type} {σ α β ε : Type}

/-! ## Programs -/

/-- After the transcript, every effect meets `P` and the result `Q`. -/
def Prog.Along (P : Transcript E R → E → Prop) (Q : α → Transcript E R → Prop) :
    Transcript E R → Prog E R α → Prop
  | t, .pure a => Q a t
  | t, .perform e k => P t e ∧ ∀ r, (k r).Along P Q (t ++ [⟨e, r⟩])

variable {P P' : Transcript E R → E → Prop}

theorem Prog.along_bind {Q : α → Transcript E R → Prop} {T : β → Transcript E R → Prop}
    {t : Transcript E R} {x : Prog E R α} {f : α → Prog E R β} (hx : x.Along P Q t)
    (hf : ∀ a t', Q a t' → (f a).Along P T t') : (x >>= f).Along P T t := by
  induction x generalizing t with
  | pure a => exact hf a t hx
  | perform e k ih => exact ⟨hx.1, fun r => ih r (hx.2 r)⟩

theorem Prog.along_mono {Q Q' : α → Transcript E R → Prop} (hP : ∀ t e, P t e → P' t e)
    (hQ : ∀ a t, Q a t → Q' a t) {t : Transcript E R} {x : Prog E R α} (hx : x.Along P Q t) :
    x.Along P' Q' t := by
  induction x generalizing t with
  | pure a => exact hQ a t hx
  | perform e k ih => exact ⟨hP t e hx.1, fun r => ih r (hx.2 r)⟩

/-- What is left of the program after some effects meets the same. -/
theorem Prog.Along.after {Q : α → Transcript E R → Prop} {t t' : Transcript E R}
    {x y : Prog E R α} (hx : x.Along P Q t) (h : After x t' y) : y.Along P Q (t ++ t') := by
  induction h generalizing t with
  | here x =>
      rw [List.append_nil]
      exact hx
  | answer r _ ih =>
      rw [List.append_cons]
      exact ih (hx.2 r)

/-! ## What comes first, and what comes after it -/

theorem After.bind {x z : Prog E R α} {t : Transcript E R} (h : After x t z)
    (f : α → Prog E R β) : After (x >>= f) t (z >>= f) := by
  induction h with
  | here x => exact .here _
  | answer r _ ih => exact .answer r ih

/-- An effect of two programs, one after the other, is one of the first, or of the second
once the first has ended. -/
theorem after_bind_perform {x : Prog E R α} {f : α → Prog E R β} {t : Transcript E R} {e : E}
    {k : R e → Prog E R β} (h : After (x >>= f) t (.perform e k)) :
    (∃ k', After x t (.perform e k')) ∨
      ∃ a t₁ t₂, t = t₁ ++ t₂ ∧ After x t₁ (.pure a) ∧ After (f a) t₂ (.perform e k) := by
  induction x generalizing t with
  | pure a => exact .inr ⟨a, [], t, rfl, .here _, h⟩
  | perform e₀ k₀ ih =>
      rcases after_perform_iff.1 h with ⟨rfl, heq⟩ | ⟨r, t', rfl, hrest⟩
      · obtain ⟨rfl, -⟩ := Prog.perform.inj heq
        exact .inl ⟨k₀, .here _⟩
      · rcases ih r hrest with ⟨k', hk'⟩ | ⟨a, t₁, t₂, rfl, hx, hf⟩
        · exact .inl ⟨k', .answer r hk'⟩
        · exact .inr ⟨a, _, t₂, rfl, .answer r hx, hf⟩

/-! ## With a state -/

/-- From where `Pre` holds, every effect meets `P`, and the result and the state `Post`. -/
def Guards (P : Transcript E R → E → Prop) (Pre : σ → Transcript E R → Prop)
    (x : StateT σ (Prog E R) α) (Post : α → σ → Transcript E R → Prop) : Prop :=
  ∀ q t, Pre q t → (x q).Along P (fun p t' => Post p.1 p.2 t') t

/-- Every effect meets `P`, and the invariant is kept. -/
def Minds (P : Transcript E R → E → Prop) (Inv : σ → Transcript E R → Prop)
    (x : StateT σ (Prog E R) α) : Prop := Guards P Inv x fun _ => Inv

variable {Pre Pre' Inv : σ → Transcript E R → Prop} {Post Post' : α → σ → Transcript E R → Prop}

theorem guards_mono {x : StateT σ (Prog E R) α} (hP : ∀ t e, P t e → P' t e)
    (hPre : ∀ q t, Pre' q t → Pre q t) (hPost : ∀ a q t, Post a q t → Post' a q t)
    (hx : Guards P Pre x Post) : Guards P' Pre' x Post' :=
  fun q t h => Prog.along_mono hP (fun (p : α × σ) => hPost p.1 p.2) (hx q t (hPre q t h))

theorem guards_pure {a : α} (h : ∀ q t, Pre q t → Post a q t) :
    Guards P Pre (pure a : StateT σ (Prog E R) α) Post := h

theorem guards_bind {x : StateT σ (Prog E R) α} {f : α → StateT σ (Prog E R) β}
    {T : β → σ → Transcript E R → Prop} (hx : Guards P Pre x Post)
    (hf : ∀ a, Guards P (Post a) (f a) T) : Guards P Pre (x >>= f) T :=
  fun q t h => Prog.along_bind (hx q t h) fun p t' => hf p.1 p.2 t'

theorem guards_effect {e : E} {T : R e → σ → Transcript E R → Prop}
    (he : ∀ q t, Pre q t → P t e) (h : ∀ q t r, Pre q t → T r q (t ++ [⟨e, r⟩])) :
    Guards P Pre (StateT.lift (Prog.effect e)) T :=
  fun q t hq => ⟨he q t hq, fun r => h q t r hq⟩

theorem minds_pure (a : α) : Minds P Inv (pure a : StateT σ (Prog E R) α) := guards_pure fun _ _ h => h

theorem minds_bind {x : StateT σ (Prog E R) α} {f : α → StateT σ (Prog E R) β}
    (hx : Minds P Inv x) (hf : ∀ a, Minds P Inv (f a)) : Minds P Inv (x >>= f) :=
  guards_bind hx hf

/-! ## With errors -/

theorem guards_except_pure {a : α} {T : Except ε α → σ → Transcript E R → Prop}
    (h : ∀ q t, Pre q t → T (.ok a) q t) :
    Guards P Pre (pure a : ExceptT ε (StateT σ (Prog E R)) α).run T := h

theorem guards_throw {err : ε} {T : Except ε α → σ → Transcript E R → Prop}
    (h : ∀ q t, Pre q t → T (.error err) q t) :
    Guards P Pre (throw err : ExceptT ε (StateT σ (Prog E R)) α).run T := h

theorem guards_except_bind {x : ExceptT ε (StateT σ (Prog E R)) α}
    {f : α → ExceptT ε (StateT σ (Prog E R)) β} {U : Except ε α → σ → Transcript E R → Prop}
    {T : Except ε β → σ → Transcript E R → Prop} (hx : Guards P Pre x.run U)
    (hf : ∀ a, Guards P (U (.ok a)) (f a).run T)
    (herr : ∀ err q t, U (.error err) q t → T (.error err) q t) :
    Guards P Pre (x >>= f).run T := by
  refine guards_bind hx fun result => ?_
  cases result with
  | ok a => exact hf a
  | error err => exact fun q t h => herr err q t h

/-- One effect, and what comes after each of its answers. -/
theorem guards_except_effect_bind {e : E} {f : R e → ExceptT ε (StateT σ (Prog E R)) β}
    {U : R e → σ → Transcript E R → Prop} {T : Except ε β → σ → Transcript E R → Prop}
    (he : ∀ q t, Pre q t → P t e) (h : ∀ q t r, Pre q t → U r q (t ++ [⟨e, r⟩]))
    (hf : ∀ r, Guards P (U r) (f r).run T) :
    Guards P Pre ((ExceptT.lift (StateT.lift (Prog.effect e)) :
      ExceptT ε (StateT σ (Prog E R)) (R e)) >>= f).run T :=
  fun q t hq => ⟨he q t hq, fun r => hf r q _ (h q t r hq)⟩

theorem minds_except_pure (a : α) :
    Minds P Inv (pure a : ExceptT ε (StateT σ (Prog E R)) α).run := guards_pure fun _ _ h => h

theorem minds_throw (err : ε) :
    Minds P Inv (throw err : ExceptT ε (StateT σ (Prog E R)) α).run := guards_throw fun _ _ h => h

theorem minds_except_bind {x : ExceptT ε (StateT σ (Prog E R)) α}
    {f : α → ExceptT ε (StateT σ (Prog E R)) β} (hx : Minds P Inv x.run)
    (hf : ∀ a, Minds P Inv (f a).run) : Minds P Inv (x >>= f).run :=
  guards_except_bind hx hf fun _ _ _ h => h

theorem minds_except_lift {x : StateT σ (Prog E R) α} (hx : Minds P Inv x) :
    Minds P Inv (ExceptT.lift x : ExceptT ε (StateT σ (Prog E R)) α).run :=
  fun q t h => Prog.along_bind (hx q t h) fun _ _ hp => hp

/-- Errors that are given another name. -/
theorem minds_adapt {ε' : Type} (g : ε → ε') {x : ExceptT ε (StateT σ (Prog E R)) α}
    (hx : Minds P Inv x.run) : Minds P Inv (ExceptT.adapt g x).run :=
  fun q t h => Prog.along_bind (hx q t h) fun _ _ hp => hp

/-- The invariant holds, and something of the result if there is one. -/
def Yields (Inv : σ → Transcript E R → Prop) (Q : α → σ → Transcript E R → Prop)
    (result : Except ε α) (q : σ) (t : Transcript E R) : Prop :=
  Inv q t ∧ ∀ a, result = .ok a → Q a q t

/-- What comes after a result knows of it. -/
theorem guards_yields_bind {x : ExceptT ε (StateT σ (Prog E R)) α}
    {f : α → ExceptT ε (StateT σ (Prog E R)) β} {Q : α → σ → Transcript E R → Prop}
    {T : Except ε β → σ → Transcript E R → Prop} (hx : Guards P Pre x.run (Yields Inv Q))
    (hf : ∀ a, Guards P (fun q t => Inv q t ∧ Q a q t) (f a).run T)
    (herr : ∀ err q t, Inv q t → T (.error err) q t) : Guards P Pre (x >>= f).run T :=
  guards_except_bind hx
    (fun a => guards_mono (fun _ _ h => h) (fun _ _ h => ⟨h.1, h.2 a rfl⟩) (fun _ _ _ h => h) (hf a))
    fun err q t h => herr err q t h.1

/-! ## Programs without a view of the past -/

/-- An invariant of the state that more transcript does not break. -/
def Lasting (Inv : σ → Transcript E R → Prop) : Prop :=
  ∀ q t x, Inv q t → Inv q (t ++ [x])

/-- An effect that is always in order. -/
theorem minds_effect (hInv : Lasting Inv) {e : E} (h : ∀ t, P t e) :
    Minds P Inv (StateT.lift (Prog.effect e)) :=
  guards_effect (fun _ t _ => h t) fun q t r => hInv q t ⟨e, r⟩

end Effects
