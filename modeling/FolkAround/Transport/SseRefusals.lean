import Mathlib.Data.List.Chain
import FolkAround.Transport.SseSlots

/-!
# Who is refused an event stream

A thread is refused when the counter is at the limit.  The counter also counts threads
that are being refused, so there may be fewer streams than that.

* `SseRun` — a run of the threads, with all its moments.
* `RefusedCall` — the moments of a call of `acquireSseSlot` that returns `false`.
* `AllHeld`, `Justified` — all slots are held by others; at some moment of every refused
  call they are.
* `Crowded`, `Undisturbed` — the counter is at the limit, but not all slots are held; no
  thread adds at such a moment.
* `sse_refusals_iff` — the refusals of a run are justified exactly if it is undisturbed.
* `crowded_iff`, `full_before_refusal` — such a moment is the work of threads that are being
  refused, one after another, since all slots were held.
-/

namespace FolkAround
namespace Transport

open Effects

/-! ## Runs and calls -/

/-- A thread that has a slot is not refused later. -/
theorem not_rest_afterAcquire : ¬ (afterAcquire true).Rest (afterAcquire false) := by
  rw [afterAcquire_true, afterAcquire_false]
  intro h
  cases h with
  | answer result h =>
      cases h with
      | answer prev h => cases h

/-- A run of the threads, with all its moments. -/
structure SseRun (ι : Type) [DecidableEq ι] where
  moments : List (SsePool ι)
  start : moments.head? = some (SsePool.start ι)
  steps : moments.IsChain (Step counter)

section

variable {ι : Type} [DecidableEq ι] {i : ι} {c c' : SsePool ι} {call : List (SsePool ι)}

/-- One moment and the next. -/
theorem SseRun.step (run : SseRun ι) (h : [c, c'] <:+: run.moments) : Step counter c c' := by
  obtain ⟨before, after, heq⟩ := h
  have hsplit : run.moments = before ++ c :: c' :: after := by
    rw [← heq]
    simp
  exact List.isChain_iff_forall_rel_of_append_cons_cons.1 run.steps hsplit

/-- The moments of a call of `acquireSseSlot` by a thread: at the first it has done
nothing yet, at the last the call has returned `false`. -/
structure RefusedCall (i : ι) (call : List (SsePool ι)) : Prop where
  steps : call.IsChain (Step counter)
  calls : ∃ c, call.head? = some c ∧ c.progs i = sendSse
  returns : ∃ c, call.getLast? = some c ∧ c.progs i = afterAcquire false

/-- All slots are held, by threads other than this one. -/
def AllHeld (i : ι) (c : SsePool ι) : Prop :=
  ∃ others : Finset ι, others.card = maxSseClients ∧ ∀ j ∈ others, j ≠ i ∧ HoldsSlot (c.progs j)

/-- Every refused call in which the thread adds in this run, however the call goes on,
has a moment at which all slots are held. -/
def Justified (run : SseRun ι) : Prop :=
  ∀ i begun call, begun <:+: run.moments → (∃ c ∈ begun, c.progs i ≠ sendSse) →
    begun <+: call → RefusedCall i call → ∃ c ∈ call, AllHeld i c

/-- In the step from one moment to the next the thread adds its one. -/
def Adds (i : ι) (c c' : SsePool ι) : Prop := c.progs i = sendSse ∧ c'.progs i ≠ sendSse

/-- The counter is at the limit, but not all slots are held. -/
def Crowded (i : ι) (c : SsePool ι) : Prop :=
  maxSseClients.toUInt32 ≤ c.seen.1 ∧ ¬ AllHeld i c

/-- No thread adds at such a moment. -/
def Undisturbed (run : SseRun ι) : Prop :=
  ∀ i c c', [c, c'] <:+: run.moments → Adds i c c' → ¬ Crowded i c

/-- The calls that the run holds from their first moment to their last. -/
theorem Justified.of_infix {run : SseRun ι} (h : Justified run) (hcall : RefusedCall i call)
    (hrun : call <:+: run.moments) : ∃ c ∈ call, AllHeld i c := by
  obtain ⟨last, hlast, hreturned⟩ := hcall.returns
  refine h i call call hrun ⟨last, List.mem_of_getLast? hlast, ?_⟩ (List.prefix_refl call) hcall
  rw [hreturned, sendSse_eq_perform]
  exact nofun

/-! ## The step that adds -/

/-- The thread adds its one. -/
def addOne (c : SsePool ι) (i : ι) : SsePool ι :=
  ⟨Function.update c.progs i (afterAdd c.seen.1), c.seen.next i .fetchAdd c.seen.1 (c.seen.1 + 1)⟩

/-- The stream of the thread ends. -/
def endStream (c : SsePool ι) (i : ι) (result : Except TransportError Unit) : SsePool ι :=
  ⟨Function.update c.progs i (afterStream result), c.seen.next i .sendSseInner result c.seen.1⟩

/-- The thread takes its one back, or gives its slot back, and goes on. -/
def takeBack (c : SsePool ι) (i : ι) (x : SseProg (Except TransportError Unit)) : SsePool ι :=
  ⟨Function.update c.progs i x, c.seen.next i .fetchSub c.seen.1 (c.seen.1 - 1)⟩

theorem step_addOne (hi : c.progs i = sendSse) : Step counter c (addOne c i) :=
  step_fetchAdd (hi.trans sendSse_eq_perform)

theorem step_endStream (hi : c.progs i = afterAcquire true) (result : Except TransportError Unit) :
    Step counter c (endStream c i result) :=
  .perform result (hi.trans afterAcquire_true) rfl

theorem step_takeBack {k : UInt32 → SseProg (Except TransportError Unit)}
    (hi : c.progs i = .perform .fetchSub k) : Step counter c (takeBack c i (k c.seen.1)) :=
  .perform _ hi ⟨rfl, rfl⟩

theorem Adds.eq_addOne (h : Adds i c c') (hstep : Step counter c c') : c' = addOne c i := by
  have hi := h.1.trans sendSse_eq_perform
  rcases hstep.same_or_perform hi with hsame | ⟨prev, n, ⟨rfl, rfl⟩, rfl⟩
  · exact absurd (hsame.trans sendSse_eq_perform.symm) h.2
  · rfl

/-- What one thread does is no matter for whether the others hold all slots. -/
theorem allHeld_next (x : SseProg (Except TransportError Unit)) (e : SseEffect) (r : SseAnswer e)
    (n : UInt32) :
    AllHeld i ⟨Function.update c.progs i x, c.seen.next i e r n⟩ ↔ AllHeld i c := by
  refine exists_congr fun others => and_congr_right fun _ => forall₂_congr fun j _ => ?_
  refine and_congr_right fun hj => ?_
  show HoldsSlot (Function.update c.progs i x j) ↔ _
  rw [Function.update_of_ne hj]

/-! ## Refusals -/

omit [DecidableEq ι] in
/-- Where a thread is no longer at its start, there was a step in which it left it. -/
theorem exists_adds {moments : List (SsePool ι)}
    (hcalls : ∃ c, moments.head? = some c ∧ c.progs i = sendSse)
    (hadded : ∃ c ∈ moments, c.progs i ≠ sendSse) : ∃ c c', [c, c'] <:+: moments ∧ Adds i c c' := by
  by_contra hnone
  have hkeeps : moments.IsChain fun c c' => c.progs i = sendSse → c'.progs i = sendSse := by
    refine List.isChain_iff_forall_rel_of_append_cons_cons.2 fun c c' before after heq hc => ?_
    by_contra hc'
    exact hnone ⟨c, c', ⟨before, after, by rw [heq]; simp⟩, hc, hc'⟩
  obtain ⟨first, hfirst, hstart⟩ := hcalls
  obtain ⟨c, hc, hne⟩ := hadded
  refine hne (hkeeps.induction _ _ (fun _ _ h => h) (fun hnil => ?_) c hc)
  rwa [(List.head_eq_iff_head?_eq_some hnil).2 hfirst]

/-- A thread that is refused found the counter at the limit. -/
theorem RefusedCall.le_of_adds (h : RefusedCall i call) (hpair : [c, c'] <:+: call)
    (hadds : Adds i c c') : maxSseClients.toUInt32 ≤ c.seen.1 := by
  obtain ⟨before, after, rfl⟩ := hpair
  have hsplit : before ++ [c, c'] ++ after = before ++ c :: c' :: after := by simp
  obtain ⟨last, hlast, hreturned⟩ := h.returns
  have hsteps := h.steps
  rw [hsplit] at hlast hsteps
  obtain ⟨-, hstep, hafter⟩ := List.isChain_append_cons_cons.1 hsteps
  by_contra hbelow
  have hslot : c'.progs i = afterAcquire true := by
    rw [hadds.eq_addOne hstep, ← afterAdd_of_lt hbelow]
    exact Function.update_self ..
  rw [List.getLast?_append_cons, List.getLast?_cons_cons] at hlast
  have hreach : Reaches counter c' last :=
    List.relationReflTransGen_of_exists_isChain_cons after hafter
      ((List.getLast_eq_iff_getLast?_eq_some _).2 hlast)
  have hrest := hreach.rest i
  rw [hslot, hreturned] at hrest
  exact not_rest_afterAcquire hrest

/-- The thread is refused while the others wait. -/
def refusal (c : SsePool ι) (i : ι) : List (SsePool ι) :=
  [c, addOne c i, takeBack (addOne c i) i (afterAcquire false)]

/-- At the limit a thread may be refused in two steps. -/
theorem refusedCall_refusal (hi : c.progs i = sendSse)
    (hfull : maxSseClients.toUInt32 ≤ c.seen.1) : RefusedCall i (refusal c i) := by
  have hundo : (addOne c i).progs i = .perform .fetchSub fun _ => afterAcquire false :=
    (Function.update_self ..).trans (afterAdd_of_le hfull)
  refine ⟨?_, ⟨c, rfl, hi⟩, ⟨_, rfl, Function.update_self ..⟩⟩
  exact .cons_cons (step_addOne hi) (.cons_cons (step_takeBack hundo) (.singleton _))

/-- The others hold their slots meanwhile. -/
theorem allHeld_of_mem_refusal {m : SsePool ι} (hm : m ∈ refusal c i) (h : AllHeld i m) :
    AllHeld i c := by
  simp only [refusal, List.mem_cons, List.not_mem_nil, or_false] at hm
  rcases hm with rfl | rfl | rfl
  · exact h
  · exact (allHeld_next ..).1 h
  · exact (allHeld_next ..).1 ((allHeld_next ..).1 h)

/-- **Refusals.**  However the calls of a run go on, the refused ones find all slots held at
some moment if and only if no thread of the run adds while the counter is at the limit
without all slots being held. -/
theorem sse_refusals_iff (run : SseRun ι) : Justified run ↔ Undisturbed run := by
  constructor
  · rintro h i c c' hpair hadds ⟨hfull, hnot⟩
    have hstep : Step counter c c' := run.step hpair
    obtain rfl := hadds.eq_addOne hstep
    obtain ⟨m, hm, hheld⟩ := h i [c, addOne c i] (refusal c i) hpair ⟨addOne c i, by simp, hadds.2⟩
      ⟨[_], rfl⟩ (refusedCall_refusal hadds.1 hfull)
    exact hnot (allHeld_of_mem_refusal hm hheld)
  · intro h i begun call hrun hadded hprefix hcall
    have hcalls : ∃ c, begun.head? = some c ∧ c.progs i = sendSse := by
      obtain ⟨rest, rfl⟩ := hprefix
      obtain ⟨added, hmem, -⟩ := hadded
      obtain ⟨first, later, rfl⟩ := List.exists_cons_of_ne_nil (List.ne_nil_of_mem hmem)
      exact hcall.calls
    obtain ⟨c, c', hpair, hadds⟩ := exists_adds hcalls hadded
    have hincall : [c, c'] <:+: call := hpair.trans hprefix.isInfix
    have hheld := not_not.1 fun hnot =>
      h i c c' (hpair.trans hrun) hadds ⟨hcall.le_of_adds hincall hadds, hnot⟩
    exact ⟨c, hincall.subset (by simp), hheld⟩

/-! ## A refusal that is not justified -/

theorem SseRun.reaches (run : SseRun ι) (hc : c ∈ run.moments) :
    Reaches counter (SsePool.start ι) c := by
  refine run.steps.induction _ _ (fun _ _ hstep hreach => hreach.tail hstep) (fun hne => ?_) c hc
  rw [(List.head_eq_iff_head?_eq_some hne).2 run.start]
  exact .refl

/-- A moment that is reached belongs to a run, which may go on from there. -/
theorem exists_run {later : List (SsePool ι)} (h : Reaches counter (SsePool.start ι) c)
    (hlater : (c :: later).IsChain (Step counter)) :
    ∃ run : SseRun ι, c :: later <:+: run.moments := by
  obtain ⟨before, hbefore, hlast⟩ := List.exists_isChain_cons_of_relationReflTransGen h
  have hsplit : SsePool.start ι :: before = (SsePool.start ι :: before).dropLast ++ [c] := by
    rw [← hlast, List.dropLast_append_getLast]
  have hchain : ((SsePool.start ι :: before).dropLast ++ c :: later).IsChain (Step counter) :=
    List.isChain_split.2 ⟨hsplit ▸ hbefore, hlater⟩
  have happend : (SsePool.start ι :: before).dropLast ++ c :: later =
      SsePool.start ι :: (before ++ later) := by
    rw [← List.cons_append, hsplit]
    simp
  exact ⟨⟨_, by rw [happend]; rfl, hchain⟩, (List.suffix_append ..).isInfix⟩

/-- One more of the threads that are in a list. -/
theorem update_ite_mem {α : Type} {f : ι → α} {a b : α} {threads : List ι}
    (hf : ∀ j, f j = if j ∈ threads then a else b) (i j : ι) :
    Function.update f i a j = if j ∈ i :: threads then a else b := by
  by_cases hj : j = i
  · subst hj
    rw [Function.update_self, if_pos List.mem_cons_self]
  · rw [Function.update_of_ne hj, hf]
    simp [hj]

/-- As many threads as there are slots may each take one. -/
theorem exists_entered {threads : List ι} (hnodup : threads.Nodup)
    (hroom : threads.length ≤ maxSseClients) :
    ∃ c, Reaches counter (SsePool.start ι) c ∧ c.seen.1.toNat = threads.length ∧
      ∀ j, c.progs j = if j ∈ threads then afterAcquire true else sendSse := by
  induction threads with
  | nil => exact ⟨SsePool.start ι, .refl, rfl, fun _ => rfl⟩
  | cons i threads ih =>
      obtain ⟨hi, hnodup⟩ := List.nodup_cons.1 hnodup
      rw [List.length_cons] at hroom
      obtain ⟨c, hreach, hcount, hprogs⟩ := ih hnodup (by omega)
      have hbelow : ¬ maxSseClients.toUInt32 ≤ c.seen.1 := by
        rw [UInt32.le_iff_toNat_le, hcount]
        exact not_le.2 hroom
      refine ⟨addOne c i, hreach.tail (step_addOne ((hprogs i).trans (if_neg hi))), ?_, ?_⟩
      · have hwords : (c.seen.1 + 1).toNat = (c.seen.1.toNat + 1) % 2 ^ 32 := UInt32.toNat_add ..
        have hlimit : maxSseClients = 32 := rfl
        show (c.seen.1 + 1).toNat = _
        rw [hwords, hcount, List.length_cons]
        omega
      · intro j
        show Function.update c.progs i (afterAdd c.seen.1) j = _
        rw [afterAdd_of_lt hbelow, update_ite_mem hprogs]

/-- One thread fewer than there are slots. -/
theorem not_allHeld {threads : List ι} {leaving : ι} (hnodup : threads.Nodup)
    (hall : threads.length = maxSseClients) (hleaving : leaving ∈ threads)
    (hinside : ∀ j, HoldsSlot (c.progs j) → j ∈ threads ∧ j ≠ leaving) : ¬ AllHeld i c := by
  rintro ⟨others, hcard, hheld⟩
  have hsub : others ⊆ threads.toFinset.erase leaving := by
    intro j hj
    obtain ⟨hmem, hne⟩ := hinside j (hheld j hj).2
    exact Finset.mem_erase.2 ⟨hne, List.mem_toFinset.2 hmem⟩
  have hle := Finset.card_le_card hsub
  rw [hcard, Finset.card_erase_of_mem (List.mem_toFinset.2 hleaving),
    List.toFinset_card_of_nodup hnodup, hall] at hle
  exact absurd hle (by decide)

/-- One stream ends while a thread is being refused: the counter is at the limit, with one
slot fewer than all held. -/
theorem exists_crowded {threads : List ι} {leaving refused i : ι} (hnodup : threads.Nodup)
    (hall : threads.length = maxSseClients) (hleaving : leaving ∈ threads)
    (hrefused : refused ∉ threads) (hi : i ∉ threads) (hne : i ≠ refused) :
    ∃ c, Reaches counter (SsePool.start ι) c ∧ c.progs i = sendSse ∧ Crowded i c := by
  obtain ⟨c, hreach, hcount, hprogs⟩ := exists_entered hnodup hall.le
  have hfull : maxSseClients.toUInt32 ≤ c.seen.1 := by
    rw [UInt32.le_iff_toNat_le, hcount, hall]
    exact le_rfl
  have hlimit : c.seen.1 = maxSseClients.toUInt32 := UInt32.toNat_inj.1 (hcount.trans hall)
  have hreach₁ : Reaches counter (SsePool.start ι) (addOne c refused) :=
    hreach.tail (step_addOne ((hprogs refused).trans (if_neg hrefused)))
  have hne' : leaving ≠ refused := fun heq => hrefused (heq ▸ hleaving)
  have hstream : (addOne c refused).progs leaving = afterAcquire true :=
    (Function.update_of_ne hne' ..).trans ((hprogs leaving).trans (if_pos hleaving))
  have hreach₂ := hreach₁.tail (step_endStream hstream (.ok ()))
  have hreach₃ : Reaches counter (SsePool.start ι) (takeBack (endStream (addOne c refused) leaving
      (.ok ())) leaving (.pure (.ok ()))) :=
    hreach₂.tail (step_takeBack (i := leaving) (k := fun _ => .pure (.ok ()))
      (Function.update_self ..))
  refine ⟨_, hreach₃, ?_, ?_, ?_⟩
  · have hleft : i ≠ leaving := fun heq => hi (heq ▸ hleaving)
    calc (takeBack (endStream (addOne c refused) leaving (.ok ())) leaving (.pure (.ok ()))).progs i
        = (endStream (addOne c refused) leaving (.ok ())).progs i := Function.update_of_ne hleft ..
      _ = (addOne c refused).progs i := Function.update_of_ne hleft ..
      _ = c.progs i := Function.update_of_ne hne ..
      _ = sendSse := (hprogs i).trans (if_neg hi)
  · show maxSseClients.toUInt32 ≤ c.seen.1 + 1 - 1
    rw [hlimit]
    decide
  · refine not_allHeld hnodup hall hleaving fun j hin => ?_
    have hj₁ : j ≠ leaving := by
      rintro rfl
      have hown : (takeBack (endStream (addOne c refused) j (.ok ())) j (.pure (.ok ()))).progs j =
          .pure (.ok ()) := Function.update_self ..
      rw [hown] at hin
      exact absurd hin.standing_eq (by decide)
    have hin₁ : HoldsSlot ((addOne c refused).progs j) := by
      have hsame : (takeBack (endStream (addOne c refused) leaving (.ok ())) leaving
          (.pure (.ok ()))).progs j = (addOne c refused).progs j :=
        (Function.update_of_ne hj₁ ..).trans (Function.update_of_ne hj₁ ..)
      rwa [hsame] at hin
    have hj₂ : j ≠ refused := by
      rintro rfl
      have hretreat : HoldsSlot retreat := by
        have hown : (addOne c j).progs j = retreat :=
          (Function.update_self ..).trans (afterAdd_of_le hfull)
        rwa [hown] at hin₁
      exact absurd hretreat.standing_eq (by decide)
    have hin₂ : HoldsSlot (c.progs j) := by
      have hsame : (addOne c refused).progs j = c.progs j := Function.update_of_ne hj₂ ..
      rwa [hsame] at hin₁
    refine ⟨?_, hj₁⟩
    by_contra hnot
    rw [hprogs, if_neg hnot] at hin₂
    exact absurd (standing_sendSse.symm.trans hin₂.standing_eq) (by decide)

/-- Who adds at such a moment may be refused without all slots being held at any moment. -/
theorem exists_unjustified (h : Reaches counter (SsePool.start ι) c) (hi : c.progs i = sendSse)
    (hcrowded : Crowded i c) : ∃ (run : SseRun ι) (call : List (SsePool ι)),
      call <:+: run.moments ∧ RefusedCall i call ∧ ∀ m ∈ call, ¬ AllHeld i m := by
  have hcall := refusedCall_refusal hi hcrowded.1
  obtain ⟨run, hrun⟩ := exists_run h hcall.steps
  refine ⟨run, refusal c i, hrun, hcall, fun m hm hheld => ?_⟩
  exact hcrowded.2 (allHeld_of_mem_refusal hm hheld)

end

/-- With 32 streams and a thread that is being refused, a stream ends; the next thread is
refused although 31 slots are held from the beginning of its call to the end. -/
theorem spurious_refusal : ∃ (run : SseRun (Fin 34)) (call : List (SsePool (Fin 34))),
    call <:+: run.moments ∧ RefusedCall 33 call ∧ ∀ c ∈ call, ¬ AllHeld 33 c := by
  obtain ⟨c, hreach, hi, hcrowded⟩ :=
    @exists_crowded (Fin 34) _ ((List.finRange 34).take 32) 0 32 33 (by decide) (by decide)
      (by decide) (by decide) (by decide) (by decide)
  exact exists_unjustified hreach hi hcrowded

/-! ## What a refusal goes back to -/

section

variable {ι : Type} [DecidableEq ι] [Fintype ι] {i : ι} {c c' : SsePool ι}

theorem allHeld_iff : AllHeld i c ↔ maxSseClients ≤ ((holders c).erase i).card := by
  constructor
  · rintro ⟨others, hcard, hheld⟩
    rw [← hcard]
    refine Finset.card_le_card fun j hj => ?_
    exact Finset.mem_erase.2 ⟨(hheld j hj).1, mem_holders.2 (hheld j hj).2⟩
  · intro hle
    obtain ⟨others, hsub, hcard⟩ := Finset.exists_subset_card_eq hle
    refine ⟨others, hcard, fun j hj => ?_⟩
    obtain ⟨hne, hholds⟩ := Finset.mem_erase.1 (hsub hj)
    exact ⟨hne, mem_holders.1 hholds⟩

/-- Such a moment is one at which refused threads fill up the counter. -/
theorem crowded_iff (hfew : Fintype.card ι < 2 ^ 31) (h : Reaches counter (SsePool.start ι) c)
    (hi : c.progs i = sendSse) :
    Crowded i c ↔ (holders c).card < maxSseClients ∧
      maxSseClients ≤ (holders c).card + (overshooting c).card := by
  have hcount := counter_eq_card hfew h
  have hnot : i ∉ holders c := by
    intro hholds
    have hin := (mem_holders.1 hholds).standing_eq
    rw [hi, standing_sendSse] at hin
    exact absurd hin (by decide)
  rw [Crowded, allHeld_iff, Finset.erase_eq_of_notMem hnot, UInt32.le_iff_toNat_le, hcount, not_le,
    and_comm]
  rfl

/-- The first of several threads that are being refused comes when all slots are held. -/
theorem holders_eq_of_first (hfew : Fintype.card ι < 2 ^ 31)
    (h : Reaches counter (SsePool.start ι) c) (hstep : Step counter c c')
    (hnone : ¬ (overshooting c).Nonempty) (hsome : (overshooting c').Nonempty) :
    (holders c).card = maxSseClients := by
  have hs := reaches_slots_inv hfew h
  rw [overshooting_eq h] at hnone
  rw [overshooting_eq (h.tail hstep)] at hsome
  rw [holders_eq h]
  rcases step_slots hfew (rest_of_reaches h) hs hstep with hsame | hmove
  · rw [hsame] at hsome
    exact absurd hsome hnone
  · exact hmove.full hs (Finset.not_nonempty_iff_eq_empty.1 hnone) hsome

/-- **What goes before.**  While somebody is being refused, this has been so ever since some
moment at which all slots were held. -/
theorem since_full (hfew : Fintype.card ι < 2 ^ 31) (run : SseRun ι) {before : List (SsePool ι)}
    (hmoment : before ++ [c] <+: run.moments) (hbusy : (overshooting c).Nonempty) :
    ∃ earlier full later, before ++ [c] = earlier ++ full :: later ∧
      (holders full).card = maxSseClients ∧ ∀ m ∈ later, (overshooting m).Nonempty := by
  induction before using List.reverseRecOn generalizing c with
  | nil =>
      obtain ⟨later, hlater⟩ := hmoment
      obtain rfl : SsePool.start ι = c := by
        have hstart := run.start
        rw [← hlater] at hstart
        exact (Option.some.inj hstart).symm
      obtain ⟨i, hi⟩ := hbusy
      have hrefused := (mem_overshooting.1 hi).standing_eq
      exact absurd (standing_sendSse.symm.trans hrefused) (by decide)
  | append_singleton before m ih =>
      have hbefore : before ++ [m] <+: run.moments := (List.prefix_append ..).trans hmoment
      have hpair : [m, c] <:+: run.moments :=
        List.IsInfix.trans ⟨before, [], by simp⟩ hmoment.isInfix
      have hstep : Step counter m c := run.step hpair
      have hreach : Reaches counter (SsePool.start ι) m := run.reaches (hpair.subset (by simp))
      by_cases hm : (overshooting m).Nonempty
      · obtain ⟨earlier, full, later, heq, hfull, hlater⟩ := ih hbefore hm
        refine ⟨earlier, full, later ++ [c], by rw [heq]; simp, hfull, fun m' hm' => ?_⟩
        rcases List.mem_append.1 hm' with hold | hnew
        · exact hlater m' hold
        · rw [List.mem_singleton.1 hnew]
          exact hbusy
      · exact ⟨before, m, [c], by simp, holders_eq_of_first hfew hreach hstep hm hbusy,
          by simpa using hbusy⟩

/-- Every refusal goes back to a moment at which all slots were held, and since then there
has always been a thread that was being refused. -/
theorem full_before_refusal (hfew : Fintype.card ι < 2 ^ 31) (run : SseRun ι)
    {before : List (SsePool ι)} (hmoments : before ++ [c] ++ [c'] <+: run.moments)
    (hadds : Adds i c c') (hrefused : maxSseClients.toUInt32 ≤ c.seen.1) :
    ∃ earlier full later, before ++ [c] ++ [c'] = earlier ++ full :: later ∧
      (holders full).card = maxSseClients ∧ ∀ m ∈ later, (overshooting m).Nonempty := by
  have hpair : [c, c'] <:+: run.moments :=
    List.IsInfix.trans ⟨before, [], by simp⟩ hmoments.isInfix
  have hstep : Step counter c c' := run.step hpair
  refine since_full hfew run hmoments ⟨i, mem_overshooting.2 ?_⟩
  have hown : (addOne c i).progs i = retreat :=
    (Function.update_self ..).trans (afterAdd_of_le hrefused)
  rw [hadds.eq_addOne hstep, hown]
  exact .refused

end

end Transport
end FolkAround
