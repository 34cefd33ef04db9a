import FolkAround.Lib.BoundedCache
import FolkAround.Lib.Transcript
import FolkAround.ComputerUse.Semantic

/-!
# The observations that are kept

Observations are cached one after the other, and looked up in between.  Every call reads
the clock, which may give anything.

* `Call`, `Done`, `Calls` — the calls, and every way in which a number of them can go.
* `readings` — what a call has read from the clock.
* `cacheObservation_runs`, `cachedTarget_runs` — what one call can do.
* `Calls.eq_run` — the observations are a `BoundedCache` of those that were cached.
* `observation_cache` — the bound, one observation for each name, what is found, and what
  stays.
-/

namespace FolkAround
namespace ComputerUse

open Effects Effects.World

variable {env : Externals} {q q' : Observations}

abbrev HostTranscript := Transcript Effect Answer

/-- What the clock has shown, where it could be read. -/
def reading (x : Exchange Effect Answer) : Option Int :=
  match x.op, x.answer with
  | .now, now => now
  | _, _ => none

def readings (t : HostTranscript) : List Int := t.filterMap reading

/-! ## The parts of a call -/

section

variable {α β : Type} {t t' : HostTranscript} {r : Except ToolExecError β}

/-- The call has failed, and changed nothing. -/
def Failed (err : ToolExecError) (q : Observations) (t : HostTranscript)
    (r : Except ToolExecError β) (q' : Observations) (t' : HostTranscript) : Prop :=
  r = .error err ∧ q' = q ∧ t' = t

theorem finishes_throw_bind_iff {err : ToolExecError} {f : α → Exec β} :
    Finishes recorder ((throw err >>= f : Exec β).run q) t (r, q') t' ↔ Failed err q t r q' t' := by
  refine Iff.trans finishes_pure_iff ?_
  show (r, q') = (.error err, q) ∧ t' = t ↔ _
  simp [Failed, and_assoc]

theorem finishes_orFail_bind_iff {err : ToolExecError} {a : Option α} {f : α → Exec β} :
    Finishes recorder ((orFail err a >>= f).run q) t (r, q') t' ↔
      (∃ x, a = some x ∧ Finishes recorder ((f x).run q) t (r, q') t') ∨
        a = none ∧ Failed err q t r q' t' := by
  cases a with
  | none => exact finishes_throw_bind_iff.trans (by simp)
  | some a =>
      show Finishes recorder ((f a).run q) t (r, q') t' ↔ _
      simp

theorem finishes_ofExcept_bind_iff {x : Except ToolExecError α} {f : α → Exec β} :
    Finishes recorder ((ofExcept x >>= f).run q) t (r, q') t' ↔
      (∃ a, x = .ok a ∧ Finishes recorder ((f a).run q) t (r, q') t') ∨
        ∃ err, x = .error err ∧ Failed err q t r q' t' := by
  cases x with
  | error err => exact finishes_throw_bind_iff.trans (by simp)
  | ok a =>
      show Finishes recorder ((f a).run q) t (r, q') t' ↔ _
      simp

theorem finishes_nowMs_bind_iff {f : Int → Exec β} :
    Finishes recorder ((nowMs >>= f).run q) t (r, q') t' ↔
      (∃ now : Int, Finishes recorder ((f now).run q) (t ++ [⟨.now, some now⟩]) (r, q') t') ∨
        Failed .io q (t ++ [⟨.now, none⟩]) r q' t' := by
  show Finishes recorder (((ExceptT.lift (perform .now) >>= fun now => orFail .io now >>= f :
    Exec β)).run q) t (r, q') t' ↔ _
  refine Iff.trans finishes_host_effect_bind_iff ?_
  constructor
  · rintro ⟨now, t₁, rfl, h⟩
    rcases finishes_orFail_bind_iff.1 h with ⟨now, rfl, h⟩ | ⟨rfl, hfailed⟩
    · exact .inl ⟨now, h⟩
    · exact .inr hfailed
  · rintro (⟨now, h⟩ | hfailed)
    · exact ⟨some now, _, rfl, finishes_orFail_bind_iff.2 (.inl ⟨now, rfl, h⟩)⟩
    · exact ⟨none, _, rfl, finishes_orFail_bind_iff.2 (.inr ⟨rfl, hfailed⟩)⟩

theorem finishes_lockObservations_bind_iff {f : Observations → Exec β} :
    Finishes recorder ((lockObservations >>= f).run q) t (r, q') t' ↔
      Finishes recorder ((f q).run q) (t ++ [⟨.lockObservations, true⟩]) (r, q') t' ∨
        Failed .semanticUnavailable q (t ++ [⟨.lockObservations, false⟩]) r q' t' := by
  show Finishes recorder (((ExceptT.lift (perform .lockObservations) >>= fun (locked : Bool) =>
    (if locked then ExceptT.lift get else throw .semanticUnavailable) >>= f : Exec β)).run q) t
      (r, q') t' ↔ _
  refine Iff.trans finishes_host_effect_bind_iff ?_
  constructor
  · rintro ⟨locked, t₁, rfl, h⟩
    cases locked with
    | false => exact .inr (finishes_throw_bind_iff.1 h)
    | true => exact .inl h
  · rintro (h | hfailed)
    · exact ⟨true, _, rfl, h⟩
    · exact ⟨false, _, rfl, finishes_throw_bind_iff.2 hfailed⟩

end

/-! ## One call -/

/-- What a call of `cacheObservation` can do: keep the observation, if it is valid when
the call begins, or fail and change nothing. -/
theorem cacheObservation_runs {o : Observation} {r : Except ToolExecError Unit}
    {t : HostTranscript} (h : Finishes recorder ((cacheObservation env o).run q) [] (r, q') t) :
    (r = .ok () ∧ ∃ now later, readings t = [now, later] ∧ env.validate o now = .ok () ∧
      q' = insertObservation q o later) ∨
    ∃ err, r = .error err ∧ q' = q ∧
      ∀ now ∈ (readings t).head?, ∀ invalid, env.validate o now = .error invalid →
        err = invalid := by
  rcases finishes_nowMs_bind_iff.1 h with ⟨now, h⟩ | ⟨rfl, rfl, rfl⟩
  · rcases finishes_ofExcept_bind_iff.1 h with ⟨_, hvalid, h⟩ | ⟨err, hinvalid, rfl, rfl, rfl⟩
    · -- it is valid: if the call fails after all, it is not for that
      have hother : ∀ (rest : HostTranscript) (err : ToolExecError),
          ∀ now' ∈ (readings (⟨.now, some now⟩ :: rest)).head?, ∀ invalid,
            env.validate o now' = .error invalid → err = invalid := by
        intro rest err now' hmem invalid hinvalid
        cases hmem
        rw [hvalid] at hinvalid
        exact absurd hinvalid (by simp)
      rcases finishes_lockObservations_bind_iff.1 h with h | ⟨rfl, rfl, rfl⟩
      · rcases finishes_nowMs_bind_iff.1 h with ⟨later, h⟩ | ⟨rfl, rfl, rfl⟩
        · obtain ⟨_, rfl, hset⟩ := finishes_host_lift_iff.1 h
          obtain ⟨hp, rfl⟩ := finishes_pure_iff.1 hset
          obtain ⟨-, rfl⟩ := Prod.mk.inj hp
          exact .inl ⟨rfl, now, later, rfl, hvalid, rfl⟩
        · exact .inr ⟨.io, rfl, rfl, hother _ _⟩
      · exact .inr ⟨.semanticUnavailable, rfl, rfl, hother _ _⟩
    · refine .inr ⟨err, rfl, rfl, ?_⟩
      intro now' hmem invalid hinvalid'
      cases hmem
      rw [hinvalid] at hinvalid'
      exact Except.error.inj hinvalid'
  · exact .inr ⟨.io, rfl, rfl, fun now hmem => absurd hmem (by simp [readings, reading])⟩

/-- What a call of `cachedTarget` finds, it finds in an observation that is kept under
the name and valid when it looks; and it changes nothing. -/
theorem cachedTarget_runs {id tag : String} {r : Except ToolExecError (SemanticTarget × Int)}
    {t : HostTranscript} (h : Finishes recorder ((cachedTarget env id tag).run q) [] (r, q') t) :
    q' = q ∧ ∀ p, r = .ok p → ∃ o now, q.find? (fun o => o.observationId = id) = some o ∧
      readings t = [now] ∧ env.validate o now = .ok () ∧ env.target o tag = .ok p.1 ∧
      p.2 = o.expiresAtMs := by
  have hfailed : ∀ {err : ToolExecError} {P : SemanticTarget × Int → Prop} (p),
      (.error err : Except ToolExecError (SemanticTarget × Int)) = .ok p → P p :=
    fun _ h => absurd h (by simp)
  rcases finishes_lockObservations_bind_iff.1 h with h | ⟨rfl, rfl, rfl⟩
  · rcases finishes_orFail_bind_iff.1 h with ⟨o, hfind, h⟩ | ⟨-, rfl, rfl, rfl⟩
    · rcases finishes_nowMs_bind_iff.1 h with ⟨now, h⟩ | ⟨rfl, rfl, rfl⟩
      · rcases finishes_ofExcept_bind_iff.1 h with ⟨_, hvalid, h⟩ | ⟨err, -, rfl, rfl, rfl⟩
        · rcases finishes_ofExcept_bind_iff.1 h with ⟨target, htarget, h⟩ | ⟨err, -, rfl, rfl, rfl⟩
          · obtain ⟨hp, rfl⟩ := finishes_host_pure_iff.1 h
            obtain ⟨rfl, rfl⟩ := Prod.mk.inj hp
            refine ⟨rfl, fun p hp => ?_⟩
            cases hp
            exact ⟨o, now, hfind, rfl, hvalid, htarget, rfl⟩
          · exact ⟨rfl, hfailed⟩
        · exact ⟨rfl, hfailed⟩
      · exact ⟨rfl, hfailed⟩
    · exact ⟨rfl, hfailed⟩
  · exact ⟨rfl, hfailed⟩

/-- A kept observation that is valid is found. -/
theorem finishes_cachedTarget {o : Observation} {tag : String} {now : Int} {target : SemanticTarget}
    (hfind : q.find? (fun o' => o'.observationId = o.observationId) = some o)
    (hvalid : env.validate o now = .ok ()) (htarget : env.target o tag = .ok target) :
    Finishes recorder ((cachedTarget env o.observationId tag).run q) []
      (.ok (target, o.expiresAtMs), q) [⟨.lockObservations, true⟩, ⟨.now, some now⟩] := by
  refine finishes_lockObservations_bind_iff.2 (.inl ?_)
  refine finishes_orFail_bind_iff.2 (.inl ⟨o, hfind, ?_⟩)
  refine finishes_nowMs_bind_iff.2 (.inl ⟨now, ?_⟩)
  refine finishes_ofExcept_bind_iff.2 (.inl ⟨(), hvalid, ?_⟩)
  refine finishes_ofExcept_bind_iff.2 (.inl ⟨target, htarget, ?_⟩)
  exact finishes_host_pure_iff.2 ⟨rfl, rfl⟩

/-! ## Many calls -/

inductive Call where
  | cacheObservation (observation : Observation)
  | cachedTarget (observationId tag : String)

/-- What the call computes: a lookup finds a target and a deadline. -/
def execCall (env : Externals) : Call → Exec (Option (SemanticTarget × Int))
  | .cacheObservation observation => do
    cacheObservation env observation
    pure none
  | .cachedTarget observationId tag => do
    let found ← cachedTarget env observationId tag
    pure (some found)

/-- A call that was made, what it was answered, and what came of it. -/
structure Done where
  call : Call
  transcript : HostTranscript
  result : Except ToolExecError (Option (SemanticTarget × Int))

/-- The calls that were made leave these observations. -/
inductive Calls (env : Externals) : List Done → Observations → Prop where
  | start : Calls env [] []
  | call {history : List Done} {q q' : Observations} {call : Call} {t : HostTranscript}
      {result : Except ToolExecError (Option (SemanticTarget × Int))} :
      Calls env history q → Finishes recorder ((execCall env call).run q) [] (result, q') t →
      Calls env (history ++ [⟨call, t, result⟩]) q'

/-- The observation that the call has cached: it was asked to, and answered well. -/
def Done.cached (d : Done) : Option Observation :=
  match d.call, d.result with
  | .cacheObservation observation, .ok _ => some observation
  | _, _ => none

/-- The observation has not expired when the call looks at the clock last, if it does. -/
def Done.unexpired (d : Done) (observation : Observation) : Bool :=
  (readings d.transcript).getLast?.all fun now => now < observation.expiresAtMs

/-- All observations that were cached. -/
def cachings (history : List Done) : List Observation := history.filterMap Done.cached

/-- The observation that was cached last under the name. -/
def lastCached (history : List Done) (id : String) : Option Observation :=
  (cachings history).reverse.find? fun o => o.observationId = id

/-- To cache an observation is to insert it, the others being fresh until they expire. -/
def Done.insertion (d : Done) : Option (BoundedCache.Insertion Observation) :=
  d.cached.map fun o => ⟨o, d.unexpired⟩

def insertions (history : List Done) : List (BoundedCache.Insertion Observation) :=
  history.filterMap Done.insertion

theorem map_entry_insertions (history : List Done) :
    (insertions history).map BoundedCache.Insertion.entry = cachings history := by
  rw [insertions, cachings, List.map_filterMap]
  refine congrFun (congrArg List.filterMap (funext fun d => ?_)) history
  rw [Done.insertion, Option.map_map]
  exact Option.map_id' ..

theorem latest_insertions (history : List Done) (id : String) :
    BoundedCache.latest Observation.observationId (insertions history) id =
      lastCached history id := by
  rw [lastCached, ← map_entry_insertions, ← List.map_reverse, List.find?_map]
  rfl

theorem insertObservation_eq {d : Done} {now : Int} (o : Observation)
    (hnow : (readings d.transcript).getLast? = some now) :
    insertObservation q o now =
      BoundedCache.insert Observation.observationId maxCachedObservations q ⟨o, d.unexpired⟩ := by
  simp [insertObservation, BoundedCache.insert, Done.unexpired, hnow]

/-- What one more call makes of the observations. -/
theorem exec_runs {call : Call} {t : HostTranscript}
    {result : Except ToolExecError (Option (SemanticTarget × Int))}
    (h : Finishes recorder ((execCall env call).run q) [] (result, q') t) :
    ((Done.mk call t result).cached = none ∧ q' = q) ∨
      ∃ o now later, (Done.mk call t result).cached = some o ∧ readings t = [now, later] ∧
        q' = insertObservation q o later := by
  cases call with
  | cacheObservation o =>
      rcases finishes_host_bind_iff.1 h with ⟨_, q₁, t₁, hcache, h⟩ | ⟨err, hcache, rfl⟩
      · obtain ⟨hp, rfl⟩ := finishes_host_pure_iff.1 h
        obtain ⟨rfl, rfl⟩ := Prod.mk.inj hp
        rcases cacheObservation_runs hcache with ⟨-, now, later, hreadings, -, rfl⟩ | ⟨err, herr, -⟩
        · exact .inr ⟨o, now, later, rfl, hreadings, rfl⟩
        · exact absurd herr (by simp)
      · rcases cacheObservation_runs hcache with ⟨hok, -⟩ | ⟨_, -, rfl, -⟩
        · exact absurd hok (by simp)
        · exact .inl ⟨rfl, rfl⟩
  | cachedTarget id tag =>
      rcases finishes_host_bind_iff.1 h with ⟨_, q₁, t₁, htarget, h⟩ | ⟨err, htarget, rfl⟩
      · obtain ⟨hp, rfl⟩ := finishes_host_pure_iff.1 h
        obtain ⟨-, rfl⟩ := Prod.mk.inj hp
        exact .inl ⟨rfl, (cachedTarget_runs htarget).1⟩
      · exact .inl ⟨rfl, (cachedTarget_runs htarget).1⟩

/-- **The observations are a bounded cache of those that were cached.** -/
theorem Calls.eq_run {history : List Done} (h : Calls env history q) :
    q = BoundedCache.run Observation.observationId maxCachedObservations (insertions history) := by
  induction h with
  | start => rfl
  | call hcalls hcall ih =>
      rename_i history q q' call t result
      have happend : insertions (history ++ [⟨call, t, result⟩]) =
          insertions history ++ insertions [⟨call, t, result⟩] := by
        rw [insertions, List.filterMap_append]
        rfl
      rw [happend]
      rcases exec_runs hcall with ⟨hcached, rfl⟩ | ⟨o, now, later, hcached, hreadings, rfl⟩
      · have hnone : insertions [⟨call, t, result⟩] = [] := by
          simp [insertions, Done.insertion, hcached]
        rw [hnone, List.append_nil]
        exact ih
      · have hone : insertions [⟨call, t, result⟩] =
            [⟨o, (Done.mk call t result).unexpired⟩] := by
          simp [insertions, Done.insertion, hcached]
        rw [hone, BoundedCache.run_concat, ← ih]
        exact insertObservation_eq o (by rw [hreadings]; rfl)

/-- An observation that is the last one of its name, was not expired whenever another one
was cached, and was followed by few under other names, is found. -/
theorem Calls.find_of_recent {before after : List Done} {d : Done} {o : Observation}
    (h : Calls env (before ++ d :: after) q) (hcached : d.cached = some o)
    (hlast : lastCached (before ++ d :: after) o.observationId = some o)
    (hfresh : ∀ d' ∈ after, d'.cached.isSome → d'.unexpired o = true)
    (hfew : (cachings after).countP (fun o' => o'.observationId ≠ o.observationId) <
      maxCachedObservations) :
    q.find? (fun o' => o'.observationId = o.observationId) = some o := by
  have hsplit : insertions (before ++ d :: after) =
      insertions before ++ ⟨o, d.unexpired⟩ :: insertions after := by
    simp [insertions, Done.insertion, hcached]
  have hcount : BoundedCache.others Observation.observationId o.observationId (insertions after) =
      (cachings after).countP (fun o' => o'.observationId ≠ o.observationId) := by
    rw [BoundedCache.others, ← map_entry_insertions, List.countP_map]
    rfl
  have hlatest := hlast
  rw [← latest_insertions, hsplit] at hlatest
  have hall : ∀ e' ∈ insertions after, e'.fresh o = true := by
    intro e' he'
    obtain ⟨d', hd', he'⟩ := List.mem_filterMap.1 he'
    obtain ⟨o', ho', rfl⟩ := Option.map_eq_some_iff.1 he'
    exact hfresh d' hd' (by rw [ho']; rfl)
  have hnear := BoundedCache.near_run (e := ⟨o, d.unexpired⟩) hlatest hall
    (Nat.lt_of_le_of_lt (Nat.le_of_eq hcount) hfew)
  rw [h.eq_run, hsplit]
  exact BoundedCache.find_of_mem (BoundedCache.nodup_run _) hnear.mem

/-! ## What one caching leaves -/

/-- The observation that was inserted is the last one, and the others were there before,
under other names and not expired. -/
theorem insertObservation_spec (q : Observations) (o : Observation) (now : Int) :
    (insertObservation q o now).find? (fun o' => o'.observationId = o.observationId) = some o ∧
      ∀ o' ∈ insertObservation q o now, o' = o ∨
        o' ∈ q ∧ o'.observationId ≠ o.observationId ∧ now < o'.expiresAtMs := by
  unfold insertObservation
  set kept := q.filter fun cached =>
    now < cached.expiresAtMs ∧ cached.observationId ≠ o.observationId
  have hold (o' : Observation) (h : o' ∈ kept) :
      o' ∈ q ∧ o'.observationId ≠ o.observationId ∧ now < o'.expiresAtMs := by
    obtain ⟨hq, hp⟩ := List.mem_filter.1 h
    obtain ⟨hfresh, hne⟩ := of_decide_eq_true hp
    exact ⟨hq, hne, hfresh⟩
  have hroom : (kept ++ [o]).length - maxCachedObservations ≤ kept.length := by
    rw [List.length_append, List.length_singleton, maxCachedObservations]
    omega
  rw [List.drop_append_of_le_length hroom]
  constructor
  · rw [List.find?_append, List.find?_eq_none.2]
    · simp
    · intro o' ho'
      simpa using (hold o' (List.mem_of_mem_drop ho')).2.1
  · intro o' ho'
    rcases List.mem_append.1 ho' with h | h
    · exact .inr (hold o' (List.mem_of_mem_drop h))
    · exact .inl (List.mem_singleton.1 h)

/-- **The observations that are kept.**  After any calls, with any readings of the clock:
there are at most `maxCachedObservations`, each under a name of its own; a caching that
fails leaves them as they are, and it does fail when the observation is not valid; one that
does not fail has found it valid, and leaves it under its name with none of the others that
has expired; a lookup only finds what is in the observation that was cached last under the
name, if that is valid then; and an observation that was the last one under its name, not
expired at any later caching, and followed by fewer than `maxCachedObservations` under other
names, is found with its own deadline. -/
theorem observation_cache (env : Externals) (history : List Done) (q : Observations)
    (h : Calls env history q) :
    (q.length ≤ maxCachedObservations ∧ (q.map Observation.observationId).Nodup) ∧
    (∀ o t r q', Finishes recorder ((cacheObservation env o).run q) [] (r, q') t →
      ((∃ err, r = .error err) → q' = q) ∧
      (∀ now ∈ (readings t).head?, ∀ err, env.validate o now = .error err →
        r = .error err ∧ q' = q) ∧
      (r = .ok () → ∃ now later, readings t = [now, later] ∧ env.validate o now = .ok () ∧
        q'.find? (fun o' => o'.observationId = o.observationId) = some o ∧
        ∀ o' ∈ q', o' = o ∨
          o' ∈ q ∧ o'.observationId ≠ o.observationId ∧ later < o'.expiresAtMs)) ∧
    (∀ id tag t target deadline q',
      Finishes recorder ((cachedTarget env id tag).run q) [] (.ok (target, deadline), q') t →
      q' = q ∧ ∃ o now, lastCached history id = some o ∧ readings t = [now] ∧
        env.validate o now = .ok () ∧ env.target o tag = .ok target ∧ deadline = o.expiresAtMs) ∧
    (∀ before d after o, history = before ++ d :: after →
      d.cached = some o → lastCached history o.observationId = some o →
      (∀ d' ∈ after, d'.cached.isSome →
        ∀ now ∈ (readings d'.transcript).getLast?, now < o.expiresAtMs) →
      (cachings after).countP (fun o' => o'.observationId ≠ o.observationId) <
        maxCachedObservations →
      ∀ tag now target, env.validate o now = .ok () → env.target o tag = .ok target →
        Finishes recorder ((cachedTarget env o.observationId tag).run q) []
          (.ok (target, o.expiresAtMs), q) [⟨.lockObservations, true⟩, ⟨.now, some now⟩]) := by
  have hrun := h.eq_run
  refine ⟨⟨?_, ?_⟩, ?_, ?_, ?_⟩
  · rw [hrun]
    exact BoundedCache.length_run_le _
  · rw [hrun]
    exact BoundedCache.nodup_run _
  · intro o t r q' hcache
    rcases cacheObservation_runs hcache with ⟨rfl, now, later, hreadings, hvalid, rfl⟩ |
      ⟨err, rfl, rfl, hwhy⟩
    · obtain ⟨hfind, hothers⟩ := insertObservation_spec q o later
      refine ⟨fun ⟨err, herr⟩ => absurd herr (by simp), ?_,
        fun _ => ⟨now, later, hreadings, hvalid, hfind, hothers⟩⟩
      intro now' hmem err hinvalid
      rw [hreadings] at hmem
      cases hmem
      rw [hvalid] at hinvalid
      exact absurd hinvalid (by simp)
    · refine ⟨fun _ => rfl, ?_, fun hok => absurd hok (by simp)⟩
      intro now hmem invalid hinvalid
      rw [hwhy now hmem invalid hinvalid]
      exact ⟨rfl, rfl⟩
  · intro id tag t target deadline q' htarget
    obtain ⟨rfl, hfound⟩ := cachedTarget_runs htarget
    obtain ⟨o, now, hfind, hreadings, hvalid, hresolved, hdeadline⟩ := hfound _ rfl
    refine ⟨rfl, o, now, ?_, hreadings, hvalid, hresolved, hdeadline⟩
    rw [hrun] at hfind
    rw [← latest_insertions]
    exact BoundedCache.latest_of_find hfind
  · rintro before d after o rfl hcached hlast hfresh hfew tag now target hvalid htarget
    refine finishes_cachedTarget (h.find_of_recent hcached hlast ?_ hfew) hvalid htarget
    intro d' hd' hsome
    rw [Done.unexpired, Option.all_eq_true]
    exact fun now' hnow' => decide_eq_true (hfresh d' hd' hsome now' hnow')

/-! ## A history to look at -/

/-- A host where an observation is valid until it expires, and every tag has a target. -/
def seeingHost : Externals :=
  { bareHost with
    validate := fun o now => if now < o.expiresAtMs then .ok () else .error .semanticUnavailable
    target := fun _ _ => .ok ⟨.null⟩ }

/-- An observation, and the clock when it is cached. -/
structure Caching where
  observation : Observation
  now : Int
  later : Int

def Caching.done (p : Caching) : Done :=
  ⟨.cacheObservation p.observation,
    [⟨.now, some p.now⟩, ⟨.lockObservations, true⟩, ⟨.now, some p.later⟩], .ok none⟩

/-- A valid observation can be cached. -/
theorem Calls.caching {history : List Done} (h : Calls env history q) (p : Caching)
    (hvalid : env.validate p.observation p.now = .ok ()) :
    Calls env (history ++ [p.done]) (insertObservation q p.observation p.later) := by
  refine h.call (finishes_host_bind_iff.2
    (.inl ⟨(), _, _, ?_, finishes_host_pure_iff.2 ⟨rfl, rfl⟩⟩))
  refine finishes_nowMs_bind_iff.2 (.inl ⟨p.now, ?_⟩)
  refine finishes_ofExcept_bind_iff.2 (.inl ⟨(), hvalid, ?_⟩)
  refine finishes_lockObservations_bind_iff.2 (.inl ?_)
  exact finishes_nowMs_bind_iff.2 (.inl ⟨p.later, .pure _ _⟩)

/-- Valid observations can be cached one after the other. -/
theorem Calls.cachings {history : List Done} (h : Calls env history q) (ps : List Caching)
    (hvalid : ∀ p ∈ ps, env.validate p.observation p.now = .ok ()) :
    Calls env (history ++ ps.map Caching.done)
      (ps.foldl (fun q p => insertObservation q p.observation p.later) q) := by
  induction ps generalizing history q with
  | nil =>
      rw [List.map_nil, List.append_nil]
      exact h
  | cons p ps ih =>
      rw [List.map_cons, List.append_cons]
      exact ih (h.caching p (hvalid p List.mem_cons_self))
        fun p' hp' => hvalid p' (List.mem_cons_of_mem p hp')

/-- An observation under the name, which expires then. -/
def seen (name : String) (expiresAtMs : Int) : Observation := ⟨name, expiresAtMs, .null⟩

/-- Under the name `button` there is an older observation, and `menu` expires first. -/
def earlier : List Caching :=
  [⟨seen "button" 50, 1, 2⟩, ⟨seen "window" 90, 3, 4⟩, ⟨seen "menu" 8, 5, 6⟩]

/-- `button` once more. -/
def button : Caching := ⟨seen "button" 100, 10, 11⟩

/-- Seven others, the last of which there is no room for but in place of `window`. -/
def others : List Caching :=
  [⟨seen "c1" 90, 12, 12⟩, ⟨seen "c2" 90, 13, 13⟩, ⟨seen "c3" 90, 14, 14⟩,
    ⟨seen "c4" 90, 15, 15⟩, ⟨seen "c5" 90, 16, 16⟩, ⟨seen "c6" 90, 17, 17⟩,
    ⟨seen "c7" 90, 18, 18⟩]

/-- What is kept in the end: `button` is the oldest. -/
def remaining : Observations :=
  [seen "button" 100, seen "c1" 90, seen "c2" 90, seen "c3" 90, seen "c4" 90, seen "c5" 90,
    seen "c6" 90, seen "c7" 90]

/-- After a replacement, an expiry and an eviction, the observation is found. -/
theorem observation_cache_button :
    Finishes recorder ((cachedTarget seeingHost "button" "ok").run remaining) []
      (.ok (⟨.null⟩, 100), remaining) [⟨.lockObservations, true⟩, ⟨.now, some 95⟩] := by
  have hcalls : Calls seeingHost ((earlier ++ button :: others).map Caching.done) remaining :=
    Calls.start.cachings (earlier ++ button :: others) (by decide)
  exact (observation_cache seeingHost _ remaining hcalls).2.2.2 (earlier.map Caching.done)
    button.done (others.map Caching.done) (seen "button" 100) rfl rfl rfl (by decide) (by decide)
    "ok" 95 ⟨.null⟩ rfl rfl

end ComputerUse
end FolkAround
