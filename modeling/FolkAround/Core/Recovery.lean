import FolkAround.Core.Agreement

/-!
# After a failed creation

A call of `loadOrCreateHttpBearer` that fails after it created the file leaves the file
as it is.

* `Recovers` — a later call by itself, in which no call of the system fails, returns a
  token.
* `recovers_iff` — it does so exactly if nobody was stopped between creating the file and
  writing the last byte of the token.
* `full_disk_blocks` — a full disk is enough to stop somebody there.
-/

namespace FolkAround
namespace Core

open Effects Effects.World

/-- A call by itself, in which no call of the system fails, returns a token. -/
def Recovers (home : Option String) (unix : Bool) (disk : Disk) : Prop :=
  (∃ result disk', Finishes (working home) (loadOrCreateHttpBearer unix).run disk result disk') ∧
    ∀ result disk', Finishes (working home) (loadOrCreateHttpBearer unix).run disk result disk' →
      ∃ token, result = .ok token ∧ IsBearer token

variable {home : Option String} {unix : Bool} {disk disk' : Disk}

/-! ## One call on a disk -/

theorem not_recovers_of_error
    (h : ∀ result disk', Finishes (working home) (loadOrCreateHttpBearer unix).run disk result disk' →
      ∃ err, result = .error err) : ¬ Recovers home unix disk := by
  rintro ⟨⟨result, disk', hrun⟩, hall⟩
  obtain ⟨err, rfl⟩ := h result disk' hrun
  obtain ⟨token, herr, -⟩ := hall _ disk' hrun
  exact absurd herr (by simp)

theorem not_recovers_windows : ¬ Recovers home false disk := by
  refine not_recovers_of_error fun result disk' h => ?_
  exact ⟨_, (finishes_throw_iff.1 h).1⟩

theorem not_recovers_homeless : ¬ Recovers none unix disk := by
  refine not_recovers_of_error fun result disk' h => ?_
  cases unix with
  | false => exact ⟨_, (finishes_throw_iff.1 h).1⟩
  | true =>
      rcases finishes_except_bind_iff.1 h with ⟨dir, s, hdir, -⟩ | ⟨err, -, rfl⟩
      · obtain ⟨-, path, hhome, -⟩ := configDir_ok hdir.of_restrict
        exact absurd hhome (by simp)
      · exact ⟨err, rfl⟩

theorem recovers_free {home : String} (hfree : disk (tokenPathIn (configDirIn home)) = none) :
    Recovers (some home) true disk := by
  refine ⟨⟨_, _, (loadOrCreate_free hfree).2 ⟨_, ⟨fun _ => 0, rfl⟩, rfl, rfl⟩⟩, ?_⟩
  intro result disk' h
  obtain ⟨token, ⟨bytes, rfl⟩, rfl, -⟩ := (loadOrCreate_free hfree).1 h
  exact ⟨_, rfl, isBearer_ofFn bytes⟩

theorem recovers_there_iff {home : String} {entry : Entry}
    (hentry : disk (tokenPathIn (configDirIn home)) = some entry) :
    Recovers (some home) true disk ↔ ∃ token, IsBearer token ∧ entry = tokenEntry token := by
  constructor
  · rintro ⟨-, hall⟩
    obtain ⟨token, htoken, -⟩ := hall _ _ ((loadOrCreate_there hentry).2 ⟨rfl, rfl⟩)
    exact ⟨token, tokenIn_eq_ok_iff.1 htoken⟩
  · rintro ⟨token, htoken⟩
    have hok := tokenIn_eq_ok_iff.2 htoken
    refine ⟨⟨_, _, (loadOrCreate_there hentry).2 ⟨rfl, rfl⟩⟩, fun result disk' h => ?_⟩
    exact ⟨token, ((loadOrCreate_there hentry).1 h).1.trans hok, htoken.1⟩

/-! ## After any run -/

/-- **What a run leaves behind.**  Any number of calls have come to any point, some of
them for good.  A later call by itself returns a token exactly if there is a home on Unix
and: whoever created the file also wrote all bytes of the token, or the file held a token
from the beginning. -/
theorem recovers_iff {ι : Type} [DecidableEq ι]
    {c : Pool ι Op Answer Disk (Except ConfigError String)}
    (h : Reaches (answers home) (.start (loadOrCreateHttpBearer unix).run disk) c) :
    Recovers home unix c.seen.1 ↔
      unix = true ∧ home ≠ none ∧
        (disk (tokenPath home) = none → creators (tokenPath home) c.seen.2 ≠ [] →
          written (tokenPath home) c.seen.2 = httpBearerHexLen) ∧
        (∀ entry, disk (tokenPath home) = some entry →
          ∃ token, IsBearer token ∧ entry = tokenEntry token) := by
  cases home with
  | none => simp [not_recovers_homeless]
  | some home =>
      cases unix with
      | false => simp [not_recovers_windows]
      | true =>
          obtain ⟨hfile, -⟩ := reaches_bearer h
          have hpath : tokenPath (some home) = tokenPathIn (configDirIn home) := rfl
          rw [hpath] at hfile ⊢
          cases hfile with
          | untouched hnone _ hinitial =>
              cases hentry : disk (tokenPathIn (configDirIn home)) with
              | none =>
                  have hrecovers := recovers_free (hinitial.trans hentry)
                  simp [hrecovers, hnone]
              | some entry =>
                  rw [recovers_there_iff (hinitial.trans hentry)]
                  simp
          | created i bytes hone hinitial hbytes hlen _ hhex =>
              rw [recovers_there_iff hbytes, hinitial, hone, ← hlen]
              constructor
              · rintro ⟨token, htoken, hentry⟩
                have hsame : bytes = Utf8.encode token.toList := congrArg Entry.contents hentry
                refine ⟨rfl, by simp, fun _ _ => ?_, by simp⟩
                rw [hsame, htoken.length_encode]
              · rintro ⟨-, -, hfull, -⟩
                obtain ⟨token, htoken, hencode⟩ := exists_isBearer (hfull rfl (by simp)) hhex
                exact ⟨token, htoken, by rw [tokenEntry, hencode]⟩

/-- After a call that made a token, the next one has it. -/
theorem recovers_after_creation :
    ∃ (c : Pool Unit Op Answer Disk (Except ConfigError String)) (token : String),
      Reaches (answers (some "/home/me")) (.start (loadOrCreateHttpBearer true).run fun _ => none) c ∧
      c.progs () = .pure (.ok token) ∧ Recovers (some "/home/me") true c.seen.1 := by
  have hfirst : Finishes (working (some "/home/me")) (loadOrCreateHttpBearer true).run
      (fun _ => none) _ _ := (loadOrCreate_free rfl).2 ⟨_, ⟨fun _ => 0, rfl⟩, rfl, rfl⟩
  obtain ⟨c, hc, hend, hdisk, -⟩ := start_reaches_of_finishes () hfirst.of_restrict
  refine ⟨c, _, hc, hend, (recovers_iff hc).2 ⟨rfl, by simp, fun _ _ => ?_, by simp⟩⟩
  have hentry := congrFun hdisk (tokenPathIn (configDirIn "/home/me"))
  rw [Function.update_self] at hentry
  obtain ⟨hfile, -⟩ := reaches_bearer hc
  cases hfile with
  | untouched _ _ hinitial => exact absurd (hentry.symm.trans hinitial) (by simp)
  | created i bytes _ _ hbytes hlen =>
      have hsame := congrArg Entry.contents (Option.some.inj (hbytes.symm.trans hentry))
      exact hlen.symm.trans ((congrArg List.length hsame).trans
        (isBearer_ofFn fun _ => 0).length_encode)

/-- A call whose first write fails. -/
theorem finishes_full_disk {home : String} (hfree : disk (tokenPathIn (configDirIn home)) = none) :
    Finishes (answers (some home)) (loadOrCreateHttpBearer true).run disk (.error .io)
      (Function.update disk (tokenPathIn (configDirIn home)) (some ⟨true, []⟩)) := by
  have hwrite : ∀ bytes, Finishes (answers (some home))
      (perform (.write (tokenPathIn (configDirIn home)) bytes))
      (Function.update disk (tokenPathIn (configDirIn home)) (some ⟨true, []⟩))
      (.error .other : Except IoError Nat)
      (Function.update disk (tokenPathIn (configDirIn home)) (some ⟨true, []⟩)) :=
    fun bytes => finishes_effect_iff.2 rfl
  refine finishes_except_bind_iff.2
    (.inl ⟨_, disk, ((configDir_working ..).2 ⟨rfl, rfl⟩).of_restrict, ?_⟩)
  refine finishes_except_bind_iff.2
    (.inl ⟨(), disk, ((ensurePrivateDir_working ..).2 ⟨rfl, rfl⟩).of_restrict, ?_⟩)
  have hopen : Finishes (answers (some home)) (openNewPrivateFile (tokenPathIn (configDirIn home)))
      disk (.ok ()) (Function.update disk (tokenPathIn (configDirIn home)) (some ⟨true, []⟩)) :=
    finishes_effect_iff.2 ⟨hfree, rfl⟩
  refine finishes_except_bind_iff.2
    (.inl ⟨.ok (), _, finishes_except_lift_iff.2 ⟨_, hopen, rfl⟩, ?_⟩)
  refine finishes_except_bind_iff.2 (.inl ⟨_, _, ((generateHttpBearer_working ..).2
    ⟨_, rfl, ⟨fun _ => 0, rfl⟩, rfl⟩).of_restrict, ?_⟩)
  refine finishes_except_bind_iff.2 (.inr ⟨.io, ?_, rfl⟩)
  rw [writeAll, if_neg]
  · refine finishes_except_bind_iff.2 (.inr ⟨.io, ?_, rfl⟩)
    exact finishes_call_of_error (hwrite _)
  · intro hempty
    have hlen := (isBearer_ofFn fun _ => 0).length_encode
    rw [hempty] at hlen
    exact absurd hlen (by decide)

/-- After a write that failed for want of room, every later call fails. -/
theorem full_disk_blocks :
    ∃ c : Pool Unit Op Answer Disk (Except ConfigError String),
      Reaches (answers (some "/home/me")) (.start (loadOrCreateHttpBearer true).run fun _ => none) c ∧
      c.progs () = .pure (.error .io) ∧ ¬ Recovers (some "/home/me") true c.seen.1 := by
  have hfails : Finishes (answers (some "/home/me")) (loadOrCreateHttpBearer true).run
      (fun _ => none) _ _ := finishes_full_disk rfl
  obtain ⟨c, hc, hend, hdisk, -⟩ := start_reaches_of_finishes () hfails
  refine ⟨c, hc, hend, fun hrecovers => ?_⟩
  have hentry := congrFun hdisk (tokenPathIn (configDirIn "/home/me"))
  rw [Function.update_self] at hentry
  obtain ⟨token, htoken, hempty⟩ := (recovers_there_iff hentry).1 hrecovers
  have hnil : Utf8.encode token.toList = [] := (congrArg Entry.contents hempty).symm
  have hlen := htoken.length_encode
  rw [hnil] at hlen
  exact absurd hlen (by decide)

end Core
end FolkAround
