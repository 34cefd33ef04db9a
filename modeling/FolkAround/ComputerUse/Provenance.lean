import FolkAround.Lib.Histories
import FolkAround.Mcp.Dispatch
import FolkAround.ComputerUse.Enforcement

/-!
# Everything that is done was asked for

In every mode, all that happens to the host is traced back: to the call of a tool, with the
arguments of that call, and for an action on the screen to an observation made before, which
is checked right before the action.

* `Executes` — when a semantic action is in order.
* `Warranted` — when an effect is, while a tool is called.
* `Seen` — the observations that are kept were made.
* `offeredNames` — the tools that can be called, by the actions the executor supports.
* `offered_warranted` — the tools that are offered do nothing else.
* `effects_warranted` — nor does any sequence of messages.
-/

namespace FolkAround
namespace ComputerUse

open Effects
open Mcp (errResult Tool ToolTable toolCall)

/-! ## What is in order -/

/-- The observation was made. -/
def Observed (t : Transcript Effect Answer) (o : Observation) : Prop :=
  ∃ deadline, ⟨.semantic (.observe deadline), .ok o⟩ ∈ t

/-- The action that a tool is for; its arguments have passed the check for it. -/
def Asks (name : String) (args : Value) : Action → Prop
  | .invoke => name = "folk_click" ∧ ensureSemanticArgs args false = pure ()
  | .setValue value => name = "folk_set_value" ∧ ensureSemanticArgs args true = pure () ∧
      strArg args "value" = some value

/-- The text that names an interaction mode. -/
def InteractionMode.text : InteractionMode → String
  | .interactive => "interactive"
  | .backgroundOnly => "background_only"

/-- An action asked for by the arguments: its operation, its target and its mode are given
there, and right before it the observation was found valid and the executor capable. -/
structure Executes (env : Externals) (name : String) (args : Value)
    (t : Transcript Effect Answer) (action : Action) (target : SemanticTarget)
    (operationId : String) (deadlineAtMs : Int) (interactionMode : InteractionMode) : Prop where
  asks : Asks name args action
  operation : strArg args "operation_id" = some operationId
  interaction : strArg args "interaction_mode" = some interactionMode.text
  aimed : ∃ earlier o tag now capabilities,
    t = earlier ++ [⟨.lockObservations, true⟩, ⟨.now, some now⟩,
      ⟨.semantic .capabilities, .ok capabilities⟩] ∧
    Observed earlier o ∧ strArg args "observation_id" = some o.observationId ∧
    strArg args "tag" = some tag ∧ env.validate o now = .ok () ∧
    env.target o tag = .ok target ∧ deadlineAtMs = o.expiresAtMs ∧
    supportsAction capabilities action.name

def captureTools : List String := ["folk_image", "folk_see", "folk_screen_capture"]

def observingTools : List String := ["folk_see", "folk_ui_snapshot"]

def actingTools : List String := ["folk_click", "folk_set_value"]

/-- The effects that are in order while a tool is called, after the transcript. -/
def Warranted (env : Externals) (mode : AccessMode) (name : String) (args : Value)
    (t : Transcript Effect Answer) : Effect → Prop
  | .run program words input cwd => input = none ∧
      ((name = "folk_list_apps" ∧ program = "ps" ∧ words = psArgs ∧ cwd = none) ∨
        (name = "folk_shell" ∧ cwd = strArg args "cwd" ∧
          ∃ command, strArg args "command" = some command ∧
            if mode = .full then program = "/bin/sh" ∧ words = ["-c", command]
            else restrictedCommand command = some (program, words)))
  | .spawn program words => name = "folk_spawn" ∧ mode = .full ∧ program = "/bin/sh" ∧
      ∃ command, strArg args "command" = some command ∧ words = ["-c", command]
  | .act action => name = "folk_clipboard_write" ∧ mode = .full ∧
      ∃ text, strArg args "text" = some text ∧ action = .clipboardWrite text
  | .query .listScreens => name = "folk_list_screens"
  | .query .grantPermissions => name = "folk_permissions" ∧ mode = .full ∧
      strArg args "action" = some "grant"
  | .query _ => False
  | .clipboardRead => name = "folk_clipboard_read"
  | .permissions => name = "folk_permissions" ∧ strArg args "action" ≠ some "grant"
  | .image .. | .imageApp .. | .file _ | .metadata _ | .readFile _ | .random _ => name ∈ captureTools
  | .now | .lockObservations => name ∈ observingTools ∨ name ∈ actingTools
  | .semantic (.observe _) => name ∈ observingTools
  | .semantic .capabilities => name ∈ actingTools ∧ mode = .full
  | .semantic (.execute action target operationId deadlineAtMs interactionMode) =>
      mode = .full ∧
        Executes env name args t action target operationId deadlineAtMs interactionMode
  | .var _ => True
  | .log _ | .hostname | .sleep _ | .cleanSnapshots .. => False

/-! ## The invariant -/

/-- All observations that are kept were made. -/
def Seen (q : Observations) (t : Transcript Effect Answer) : Prop := ∀ o ∈ q, Observed t o

theorem Observed.append {t : Transcript Effect Answer} {o : Observation} (h : Observed t o)
    (t' : Transcript Effect Answer) : Observed (t ++ t') o := by
  obtain ⟨deadline, hmem⟩ := h
  exact ⟨deadline, List.mem_append_left t' hmem⟩

theorem lasting_seen : Lasting Seen := fun _ _ x h o ho => (h o ho).append [x]

/-! ## The pieces of a handler -/

section

variable {P : Transcript Effect Answer → Effect → Prop} {α β : Type}

theorem minds_flatten {x : Exec Value} (hx : Minds P Seen x.run) : Minds P Seen (flatten x) := by
  refine minds_bind hx fun result => ?_
  cases result with
  | ok value => exact minds_pure value
  | error err => exact minds_pure (errResult err.text)

theorem minds_perform {e : Effect} (h : ∀ t, P t e) :
    Minds P Seen (ExceptT.lift (perform e) : Exec (Answer e)).run :=
  minds_except_lift (minds_effect lasting_seen h)

theorem minds_orFail (err : ToolExecError) (a : Option α) : Minds P Seen (orFail err a).run := by
  cases a with
  | none => exact minds_throw err
  | some a => exact minds_except_pure a

/-- What is done with an argument that is there. -/
theorem minds_orFail_bind {err : ToolExecError} {a : Option α} {f : α → Exec β}
    (hf : ∀ x, a = some x → Minds P Seen (f x).run) : Minds P Seen (orFail err a >>= f).run := by
  cases a with
  | none => exact minds_throw err
  | some x => exact hf x rfl

theorem minds_fileOk (a : Except FileError α) : Minds P Seen (fileOk a).run := by
  cases a with
  | ok a => exact minds_except_pure a
  | error _ => exact minds_throw ToolExecError.io

/-- What comes after the check for full mode happens in full mode. -/
theorem minds_ensureMutation_bind {mode : AccessMode} {f : Unit → Exec α}
    (hf : mode = .full → Minds P Seen (f ()).run) :
    Minds P Seen (ensureMutation mode >>= f).run := by
  unfold ensureMutation
  split
  · exact minds_throw ToolExecError.blocked
  · next hmode => exact hf (not_not.1 hmode)

theorem minds_runCommand {program : String} {args : List String} {input cwd : Option String}
    (h : ∀ t, P t (.run program args input cwd)) :
    Minds P Seen (runCommand program args input cwd).run := by
  refine minds_except_bind (minds_perform h) fun answer => ?_
  exact minds_except_bind (minds_orFail .io answer) fun output => minds_except_pure _

theorem minds_query {q : DesktopQuery} (h : ∀ t, P t (.query q)) : Minds P Seen (query q).run :=
  minds_except_bind (minds_perform h) fun answer => minds_orFail .peekaboo answer

end

/-! ## Processes, the clipboard, permissions, displays -/

section

variable {env : Externals} {mode : AccessMode} {args : Value}

theorem shell_warranted : Minds (Warranted env mode "folk_shell" args) Seen (shell args mode) := by
  refine minds_flatten (minds_orFail_bind fun command hcommand => ?_)
  split
  · next hmode =>
      refine minds_except_bind (minds_runCommand fun t => ?_) fun _ => minds_except_pure _
      exact ⟨rfl, .inr ⟨rfl, rfl, command, hcommand, by rw [if_pos hmode]; exact ⟨rfl, rfl⟩⟩⟩
  · next hmode =>
      cases hrun : restrictedCommand command with
      | none => exact minds_except_pure _
      | some run =>
          refine minds_except_bind (minds_runCommand fun t => ?_) fun _ => minds_except_pure _
          exact ⟨rfl, .inr ⟨rfl, rfl, command, hcommand, by rw [if_neg hmode]; exact hrun⟩⟩

theorem listApps_warranted :
    Minds (Warranted env mode "folk_list_apps" args) Seen (listApps mode) := by
  refine minds_flatten (minds_except_bind (minds_runCommand fun t => ?_) fun _ => minds_except_pure _)
  exact ⟨rfl, .inl ⟨rfl, rfl, rfl, rfl⟩⟩

theorem spawnCommand_warranted :
    Minds (Warranted env mode "folk_spawn" args) Seen (spawnCommand args mode) := by
  refine minds_flatten ?_
  split
  · exact minds_except_pure _
  · next hmode =>
      refine minds_orFail_bind fun command hcommand => ?_
      refine minds_except_bind (minds_perform fun t => ?_) fun spawned =>
        minds_except_bind (minds_orFail _ _) fun _ => minds_except_pure _
      exact ⟨rfl, not_not.1 hmode, rfl, command, hcommand, rfl⟩

theorem clipboardRead_warranted :
    Minds (Warranted env mode "folk_clipboard_read" args) Seen clipboardRead :=
  minds_flatten (minds_except_bind (minds_perform fun _ => rfl) fun answer =>
    minds_except_bind (minds_orFail _ answer) fun _ => minds_except_pure _)

theorem clipboardWrite_warranted :
    Minds (Warranted env mode "folk_clipboard_write" args) Seen (clipboardWrite args mode) := by
  refine minds_flatten (minds_ensureMutation_bind fun hmode => ?_)
  cases htext : strArg args "text" with
  | none => exact minds_throw (ToolExecError.missing "text")
  | some text =>
      show Minds _ _ (act (.clipboardWrite text) "copied to clipboard").run
      exact minds_except_bind (minds_perform fun _ => ⟨rfl, hmode, text, htext, rfl⟩) fun answer =>
        minds_except_bind (minds_orFail _ answer) fun _ => minds_except_pure _

theorem permissions_warranted :
    Minds (Warranted env mode "folk_permissions" args) Seen (permissions env args mode) := by
  refine minds_flatten ?_
  split
  · next hgrant =>
      refine minds_ensureMutation_bind fun hmode => ?_
      exact minds_except_bind (minds_query fun _ => ⟨rfl, hmode, hgrant⟩) fun _ =>
        minds_except_pure _
  · next hgrant =>
      exact minds_except_bind (minds_perform fun _ => ⟨rfl, hgrant⟩) fun _ => minds_except_pure _

theorem listScreens_warranted :
    Minds (Warranted env mode "folk_list_screens" args) Seen (listScreens env mode) :=
  minds_flatten (minds_except_bind (minds_query fun _ => rfl) fun _ => minds_except_pure _)

/-! ## Screenshots -/

section

variable {name : String} (hname : name ∈ captureTools)
include hname

theorem minds_fileStep (op : FileOp) :
    Minds (Warranted env mode name args) Seen (fileStep op).run := by
  refine minds_except_bind (minds_except_lift (minds_effect lasting_seen fun _ => hname))
    fun answer => ?_
  cases answer with
  | ok _ => exact minds_except_pure _
  | error _ => exact minds_throw ConfigError.io

theorem minds_ensurePrivateDir (path : String) :
    Minds (Warranted env mode name args) Seen (ensurePrivateDir path).run :=
  minds_except_bind (minds_fileStep hname _) fun _ => minds_fileStep hname _

omit hname in
theorem minds_configDir : Minds (Warranted env mode name args) Seen configDir.run := by
  refine minds_except_bind (minds_except_lift (minds_effect lasting_seen fun _ => trivial))
    fun home => ?_
  cases home with
  | none => exact minds_throw ConfigError.homeMissing
  | some home => exact minds_except_pure _

theorem minds_createArtifactIn (dir : String) (tries : Nat) :
    Minds (Warranted env mode name args) Seen (createArtifactIn dir tries).run := by
  induction tries with
  | zero => exact minds_throw ConfigError.io
  | succ tries ih =>
      refine minds_except_bind (minds_except_lift ?_) fun id => ?_
      · exact minds_bind (minds_effect lasting_seen fun _ => hname) fun _ => minds_pure _
      refine minds_except_bind (minds_except_lift (minds_effect lasting_seen fun _ => hname))
        fun opened => ?_
      match opened with
      | .ok () =>
          exact minds_except_bind (minds_fileStep hname _) fun _ =>
            minds_except_bind (minds_fileStep hname _) fun _ =>
              minds_except_bind (minds_fileStep hname _) fun _ => minds_except_pure _
      | .error .alreadyExists => exact ih
      | .error .other => exact minds_throw ConfigError.io

theorem minds_newArtifact : Minds (Warranted env mode name args) Seen (newArtifact env).run := by
  refine minds_adapt _ ?_
  unfold createArtifactFile
  split
  · exact minds_except_bind minds_configDir fun _ =>
      minds_except_bind (minds_ensurePrivateDir hname _) fun _ =>
        minds_except_bind (minds_ensurePrivateDir hname _) fun _ => minds_createArtifactIn hname _ _
  · exact minds_throw ConfigError.privatePermissionsUnavailable

theorem minds_screenshotReference (capture : ImageCapture) :
    Minds (Warranted env mode name args) Seen (screenshotReference env capture).run := by
  unfold screenshotReference
  split
  · refine minds_except_bind (minds_perform fun _ => hname) fun opened => ?_
    refine minds_except_bind (minds_fileOk opened) fun _ => ?_
    refine minds_except_bind (minds_perform fun _ => hname) fun metadata => ?_
    refine minds_except_bind (minds_fileOk metadata) fun metadata => ?_
    split
    · exact minds_throw ToolExecError.screenshotReferenceUnavailable
    refine minds_except_bind (minds_perform fun _ => hname) fun restricted => ?_
    refine minds_except_bind (minds_fileOk restricted) fun _ => ?_
    refine minds_except_bind (minds_perform fun _ => hname) fun metadata => ?_
    refine minds_except_bind (minds_fileOk metadata) fun metadata => ?_
    split
    · exact minds_throw ToolExecError.screenshotReferenceUnavailable
    refine minds_except_bind (minds_perform fun _ => hname) fun contents => ?_
    refine minds_except_bind (minds_fileOk contents) fun contents => ?_
    split
    · exact minds_throw ToolExecError.screenshotReferenceUnavailable
    · exact minds_except_pure _
  · exact minds_throw ToolExecError.screenshotReferenceUnavailable

theorem minds_imageResult (metadata : List (String × Value)) (capture : ImageCapture)
    (locator : String) :
    Minds (Warranted env mode name args) Seen (imageResult env metadata capture locator).run := by
  unfold imageResult
  split
  · exact minds_except_bind (minds_perform fun _ => hname) fun _ =>
      minds_throw ToolExecError.screenshotReferenceUnavailable
  · exact minds_except_bind (minds_screenshotReference hname capture) fun _ => minds_except_pure _

theorem minds_captureImage (captureMode : ImageMode) (path : String) (retina : Bool) :
    Minds (Warranted env mode name args) Seen (captureImage captureMode path retina).run :=
  minds_except_bind (minds_perform fun _ => hname) fun answer => minds_orFail _ answer

end

theorem minds_ensureScreenshotReferenceSupported {P : Transcript Effect Answer → Effect → Prop} :
    Minds P Seen (ensureScreenshotReferenceSupported env).run := by
  unfold ensureScreenshotReferenceSupported
  split
  · exact minds_except_pure ()
  · exact minds_throw ToolExecError.screenshotReferenceUnavailable

theorem screenCapture_warranted :
    Minds (Warranted env mode "folk_screen_capture" args) Seen (screenCapture env args mode) := by
  have hname : "folk_screen_capture" ∈ captureTools := by decide
  refine minds_flatten ?_
  refine minds_except_bind minds_ensureScreenshotReferenceSupported fun _ => ?_
  extract_lets target
  split
  · exact minds_throw ToolExecError.coordinatesUnavailable
  · exact minds_except_bind (minds_newArtifact hname) fun artifact =>
      minds_except_bind (minds_captureImage hname _ _ _) fun capture =>
        minds_imageResult hname _ _ _

theorem image_warranted :
    Minds (Warranted env mode "folk_image" args) Seen (image env args mode) := by
  have hname : "folk_image" ∈ captureTools := by decide
  refine minds_flatten ?_
  refine minds_except_bind minds_ensureScreenshotReferenceSupported fun _ => ?_
  refine minds_except_bind (minds_newArtifact hname) fun artifact => ?_
  extract_lets retina shown
  have hshown (capture : ImageCapture) :
      Minds (Warranted env mode "folk_image" args) Seen (shown capture).run :=
    minds_imageResult hname _ capture _
  split
  · exact minds_except_bind (minds_perform fun _ => hname) fun answer =>
      minds_except_bind (minds_orFail _ answer) hshown
  · exact minds_except_bind (minds_orFail _ _) fun captureMode =>
      minds_except_bind (minds_captureImage hname _ _ _) hshown

/-! ## Observations -/

section

variable {P : Transcript Effect Answer → Effect → Prop} {α : Type}
  {Inv : Observations → Transcript Effect Answer → Prop}

theorem guards_ofExcept (hInv : ∀ q t, Inv q t → Seen q t) (a : Except ToolExecError α) :
    Guards P Inv (ofExcept a).run (Yields Seen fun b q t => a = .ok b ∧ Inv q t) := by
  cases a with
  | ok a => exact guards_except_pure fun q t h => ⟨hInv q t h, fun b hb => ⟨by rw [Except.ok.inj hb], h⟩⟩
  | error err => exact guards_throw fun q t h => ⟨hInv q t h, fun b hb => absurd hb (by simp)⟩

theorem guards_orFail (hInv : ∀ q t, Inv q t → Seen q t) (err : ToolExecError) (a : Option α) :
    Guards P Inv (orFail err a).run (Yields Seen fun b q t => a = some b ∧ Inv q t) := by
  cases a with
  | some a => exact guards_except_pure fun q t h => ⟨hInv q t h, fun b hb => ⟨by rw [Except.ok.inj hb], h⟩⟩
  | none => exact guards_throw fun q t h => ⟨hInv q t h, fun b hb => absurd hb (by simp)⟩

/-- The clock is read; the reading is the last thing in the transcript. -/
theorem guards_nowMs (hInv : ∀ q t, Inv q t → Seen q t) (h : ∀ t, P t .now) :
    Guards P Inv nowMs.run (Yields Seen fun now q t =>
      ∃ earlier, t = earlier ++ [⟨.now, some now⟩] ∧ Inv q earlier) := by
  refine guards_except_effect_bind (U := fun r q t => ∃ earlier, t = earlier ++ [⟨.now, r⟩] ∧
    Inv q earlier) (fun _ t _ => h t) (fun q t r hq => ⟨t, rfl, hq⟩) fun r => ?_
  refine guards_mono (fun _ _ hP => hP) (fun _ _ hq => hq) ?_ (guards_orFail ?_ .io r)
  · rintro result q t ⟨hseen, hresult⟩
    refine ⟨hseen, fun now hnow => ?_⟩
    obtain ⟨rfl, hearlier⟩ := hresult now hnow
    exact hearlier
  · rintro q t ⟨earlier, rfl, hq⟩
    exact lasting_seen _ _ _ (hInv q earlier hq)

/-- The lock is taken; what it guards is the state. -/
theorem guards_lockObservations (hInv : ∀ q t, Inv q t → Seen q t) (h : ∀ t, P t .lockObservations) :
    Guards P Inv lockObservations.run (Yields Seen fun kept q t =>
      kept = q ∧ ∃ earlier, t = earlier ++ [⟨.lockObservations, true⟩] ∧ Inv q earlier) := by
  refine guards_except_effect_bind (U := fun r q t =>
    ∃ earlier, t = earlier ++ [⟨.lockObservations, r⟩] ∧ Inv q earlier) (fun _ t _ => h t)
      (fun q t r hq => ⟨t, rfl, hq⟩) fun locked => ?_
  have hseen : ∀ q t, (∃ earlier, t = earlier ++ [⟨.lockObservations, locked⟩] ∧ Inv q earlier) →
      Seen q t := by
    rintro q t ⟨earlier, rfl, hq⟩
    exact lasting_seen _ _ _ (hInv q earlier hq)
  cases locked with
  | false =>
      exact guards_throw fun q t hq => ⟨hseen q t hq, fun b hb => absurd hb (by simp)⟩
  | true =>
      intro q t hq
      exact ⟨hseen q t hq, fun b hb => ⟨(Except.ok.inj hb).symm, hq⟩⟩

end

/-- Nothing is kept that was not there or was not given. -/
theorem mem_insertObservation {q : Observations} {o o' : Observation} {now : Int}
    (h : o' ∈ insertObservation q o now) : o' ∈ q ∨ o' = o := by
  unfold insertObservation at h
  rcases List.mem_append.1 (List.mem_of_mem_drop h) with h | h
  · exact .inl (List.mem_of_mem_filter h)
  · exact .inr (List.mem_singleton.1 h)

/-- An observation that was made is kept, or not. -/
theorem guards_cacheObservation {P : Transcript Effect Answer → Effect → Prop}
    (hnow : ∀ t, P t .now) (hlock : ∀ t, P t .lockObservations) (o : Observation) :
    Guards P (fun q t => Seen q t ∧ Observed t o) (cacheObservation env o).run
      fun _ => Seen := by
  refine guards_yields_bind (guards_nowMs (fun _ _ h => h.1) hnow) (fun now => ?_)
    fun _ _ _ h => h
  refine guards_yields_bind (guards_ofExcept (fun _ _ h => h.1) _) (fun _ => ?_) fun _ _ _ h => h
  refine guards_yields_bind (guards_lockObservations (fun _ _ h => h.1) hlock) (fun kept => ?_)
    fun _ _ _ h => h
  refine guards_yields_bind (guards_nowMs (fun _ _ h => h.1) hnow) (fun later => ?_)
    fun _ _ _ h => h
  rintro q t ⟨hseen, t₃, rfl, -, rfl, t₂, rfl, -, -, -, t₁, rfl, -, ho⟩ o' ho'
  rcases mem_insertObservation ho' with hmem | rfl
  · exact hseen o' hmem
  · exact ((ho.append _).append _).append _

theorem minds_observeSemantic {name : String} (hname : name ∈ observingTools) :
    Minds (Warranted env mode name args) Seen (observeSemantic env).run := by
  have hnow : ∀ t, Warranted env mode name args t .now := fun _ => .inl hname
  refine guards_yields_bind (guards_nowMs (fun _ _ h => h) hnow) (fun now => ?_) fun _ _ _ h => h
  refine guards_except_effect_bind (U := fun r q t => Seen q t ∧ ∃ deadline,
    ⟨.semantic (.observe deadline), r⟩ ∈ t) (fun _ _ _ => hname) ?_ fun observed => ?_
  · rintro q t r ⟨hseen, -⟩
    exact ⟨lasting_seen _ _ _ hseen, _, List.mem_append_right _ (List.mem_singleton_self _)⟩
  refine guards_yields_bind (guards_ofExcept (fun _ _ h => h.1) observed) (fun o => ?_)
    fun _ _ _ h => h
  have hcache : Guards (Warranted env mode name args)
      (fun q t => Seen q t ∧ observed = .ok o ∧ Seen q t ∧ ∃ deadline,
        ⟨.semantic (.observe deadline), observed⟩ ∈ t)
      (cacheObservation env o).run fun _ => Seen := by
    refine guards_mono (fun _ _ h => h) ?_ (fun _ _ _ h => h)
      (guards_cacheObservation hnow (fun _ => .inl hname) o)
    rintro q t ⟨hseen, rfl, -, hmade⟩
    exact ⟨hseen, hmade⟩
  exact guards_except_bind hcache (fun _ => minds_except_pure o) fun _ _ _ h => h

theorem see_warranted : Minds (Warranted env mode "folk_see" args) Seen (see env args mode) := by
  have hname : "folk_see" ∈ captureTools := by decide
  exact minds_flatten <|
    minds_except_bind minds_ensureScreenshotReferenceSupported fun _ =>
      minds_except_bind (minds_orFail _ _) fun _ =>
        minds_except_bind (minds_newArtifact hname) fun _ =>
          minds_except_bind (minds_observeSemantic (by decide)) fun _ =>
            minds_except_bind (minds_captureImage hname _ _ _) fun _ => minds_imageResult hname _ _ _

theorem uiSnapshot_warranted :
    Minds (Warranted env mode "folk_ui_snapshot" args) Seen (uiSnapshot env mode) :=
  minds_flatten (minds_except_bind (minds_observeSemantic (by decide)) fun _ => minds_except_pure _)

/-! ## Actions -/

/-- A target is that of an observation made before, which was just found valid. -/
def Aimed (env : Externals) (observationId tag : String) (aim : SemanticTarget × Int)
    (t : Transcript Effect Answer) : Prop :=
  ∃ earlier o now, t = earlier ++ [⟨.lockObservations, true⟩, ⟨.now, some now⟩] ∧
    Observed earlier o ∧ o.observationId = observationId ∧ env.validate o now = .ok () ∧
    env.target o tag = .ok aim.1 ∧ aim.2 = o.expiresAtMs

theorem guards_cachedTarget {name : String} (hname : name ∈ actingTools)
    (observationId tag : String) :
    Guards (Warranted env mode name args) Seen (cachedTarget env observationId tag).run
      (Yields Seen fun aim _ t => Aimed env observationId tag aim t) := by
  have herr : ∀ (err : ToolExecError) (q : Observations) (t : Transcript Effect Answer), Seen q t →
      Yields Seen (fun aim _ t => Aimed env observationId tag aim t) (.error err) q t :=
    fun _ _ _ h => ⟨h, fun _ ha => absurd ha (by simp)⟩
  refine guards_yields_bind (guards_lockObservations (fun _ _ h => h) fun _ => .inr hname)
    (fun kept => ?_) herr
  refine guards_yields_bind (guards_orFail (fun _ _ h => h.1) _ _) (fun o => ?_) herr
  refine guards_yields_bind (guards_nowMs (fun _ _ h => h.1) fun _ => .inr hname) (fun now => ?_) herr
  refine guards_yields_bind (guards_ofExcept (fun _ _ h => h.1) _) (fun _ => ?_) herr
  refine guards_yields_bind (guards_ofExcept (fun _ _ h => h.1) _) (fun target => ?_) herr
  rintro q t ⟨hseen, htarget, -, hvalid, -, t₂, rfl, -, hfind, -, rfl, t₁, rfl, hq⟩
  refine ⟨hseen, fun aim haim => ?_⟩
  obtain rfl := Except.ok.inj haim
  refine ⟨t₁, o, now, by simp, hq o (List.mem_of_find?_eq_some hfind), ?_, hvalid, htarget, rfl⟩
  simpa using List.find?_some hfind

/-- What an action needs besides its target. -/
structure AskedFor (mode : AccessMode) (name : String) (args : Value) (action : Action)
    (operationId observationId tag : String) (interactionMode : InteractionMode) : Prop where
  full : mode = .full
  acting : name ∈ actingTools
  asks : Asks name args action
  operation : strArg args "operation_id" = some operationId
  observation : strArg args "observation_id" = some observationId
  tag : strArg args "tag" = some tag
  interaction : strArg args "interaction_mode" = some interactionMode.text

/-- **An action that was asked for and is aimed is in order.** -/
theorem minds_executeSemantic {name : String} {action : Action}
    {operationId observationId tag : String} {interactionMode : InteractionMode}
    (h : AskedFor mode name args action operationId observationId tag interactionMode)
    (aim : SemanticTarget × Int) :
    Guards (Warranted env mode name args)
      (fun q t => Seen q t ∧ Aimed env observationId tag aim t)
      (executeSemantic env action aim.1 operationId aim.2 interactionMode).run fun _ => Seen := by
  refine guards_except_effect_bind (U := fun r q t => Seen q t ∧ ∃ earlier,
    t = earlier ++ [⟨.semantic .capabilities, r⟩] ∧ Aimed env observationId tag aim earlier)
      (fun _ _ _ => ⟨h.acting, h.full⟩) ?_ fun r => ?_
  · rintro q t r ⟨hseen, haim⟩
    exact ⟨lasting_seen _ _ _ hseen, t, rfl, haim⟩
  refine guards_yields_bind (guards_ofExcept (fun _ _ h => h.1) r) (fun capabilities => ?_)
    fun _ _ _ h => h
  split
  · next hsupports =>
      refine guards_except_effect_bind (U := fun _ => Seen) ?_ ?_ fun report => ?_
      · rintro q t ⟨-, rfl, -, t₁, rfl, earlier, o, now, rfl, ho, hid, hvalid, htarget, hdeadline⟩
        refine ⟨h.full, h.asks, h.operation, h.interaction, earlier, o, tag, now, capabilities,
          by simp, ho, ?_, h.tag, hvalid, htarget, hdeadline, hsupports⟩
        rw [h.observation, hid]
      · exact fun q t r hq => lasting_seen _ _ _ hq.1
      · exact guards_yields_bind (guards_ofExcept (fun _ _ h => h) report)
          (fun _ => guards_except_pure fun _ _ h => h.1) fun _ _ _ h => h
  · exact guards_throw fun _ _ hq => hq.1

/-- The mode that is read is the one that is written in the arguments. -/
theorem minds_interactionModeArg_bind {P : Transcript Effect Answer → Effect → Prop}
    {f : InteractionMode → Exec Value}
    (hf : ∀ m : InteractionMode, strArg args "interaction_mode" = some m.text →
      Minds P Seen (f m).run) :
    Minds P Seen (interactionModeArg args >>= f).run := by
  unfold interactionModeArg
  split
  · next text htext =>
      split
      · next hi => exact hf .interactive (by rw [htext, hi]; rfl)
      · split
        · next hb => exact hf .backgroundOnly (by rw [htext, hb]; rfl)
        · exact minds_throw ToolExecError.invalidArguments
  · exact minds_throw ToolExecError.invalidArguments

/-- The check of the arguments passes or fails, and does nothing else. -/
theorem ensureSemanticArgs_cases (args : Value) (set : Bool) :
    ensureSemanticArgs args set = pure () ∨ ensureSemanticArgs args set = throw .invalidArguments := by
  have hbind : ∀ {β : Type} (x : Option β) (f : β → Exec Unit),
      (∀ b, f b = pure () ∨ f b = throw .invalidArguments) →
        (orFail .invalidArguments x >>= f) = pure () ∨
          (orFail .invalidArguments x >>= f) = throw .invalidArguments := by
    intro β x f hf
    cases x with
    | none => exact .inr rfl
    | some b => exact hf b
  have hexact : ∀ keys, ensureExactArgs args keys = pure () ∨
      ensureExactArgs args keys = throw .invalidArguments := by
    intro keys
    unfold ensureExactArgs
    split
    · split
      · exact .inl rfl
      · exact .inr rfl
    · exact .inr rfl
  unfold ensureSemanticArgs
  rcases hexact (if set then setValueFields else clickFields) with h | h
  · rw [h]
    refine hbind _ _ fun operationId => hbind _ _ fun observationId => hbind _ _ fun tag => ?_
    dsimp only
    split
    · exact .inl rfl
    · exact .inr rfl
  · rw [h]
    exact .inr rfl

theorem minds_ensureSemanticArgs_bind {P : Transcript Effect Answer → Effect → Prop} {set : Bool}
    {f : Unit → Exec Value}
    (hf : ensureSemanticArgs args set = pure () → Minds P Seen (f ()).run) :
    Minds P Seen (ensureSemanticArgs args set >>= f).run := by
  rcases ensureSemanticArgs_cases args set with h | h
  · rw [h]
    exact hf h
  · rw [h]
    exact minds_throw ToolExecError.invalidArguments

theorem click_warranted :
    Minds (Warranted env mode "folk_click" args) Seen (click env args mode) := by
  refine minds_flatten (minds_ensureMutation_bind fun hmode => ?_)
  refine minds_ensureSemanticArgs_bind fun hargs => ?_
  refine minds_orFail_bind fun operationId hop => ?_
  refine minds_orFail_bind fun observationId hobs => ?_
  refine minds_orFail_bind fun tag htag => ?_
  refine minds_interactionModeArg_bind fun interactionMode himode => ?_
  refine minds_ensureMutation_bind fun _ => ?_
  exact guards_yields_bind (guards_cachedTarget (by decide) observationId tag)
    (minds_executeSemantic ⟨hmode, by decide, ⟨rfl, hargs⟩, hop, hobs, htag, himode⟩)
    fun _ _ _ h => h

theorem setValue_warranted :
    Minds (Warranted env mode "folk_set_value" args) Seen (setValue env args mode) := by
  refine minds_flatten (minds_ensureMutation_bind fun hmode => ?_)
  refine minds_ensureSemanticArgs_bind fun hargs => ?_
  refine minds_orFail_bind fun operationId hop => ?_
  refine minds_orFail_bind fun observationId hobs => ?_
  refine minds_orFail_bind fun tag htag => ?_
  refine minds_orFail_bind fun value hvalue => ?_
  refine minds_interactionModeArg_bind fun interactionMode himode => ?_
  refine minds_ensureMutation_bind fun _ => ?_
  exact guards_yields_bind (guards_cachedTarget (by decide) observationId tag)
    (minds_executeSemantic
      ⟨hmode, by decide, ⟨rfl, hargs, hvalue⟩, hop, hobs, htag, himode⟩)
    fun _ _ _ h => h

end

/-! ## The tools -/

/-- What a tool does is in order. -/
def WarrantedTool (env : Externals) (tool : Tool Host) : Prop :=
  ∀ args mode, Minds (Warranted env mode tool.name args) Seen (tool.handler args mode)

theorem warrantedTool {env : Externals} {name description : String} {inputSchema : Value}
    {handler : Value → AccessMode → Host Value}
    (h : ∀ args mode, Minds (Warranted env mode name args) Seen (handler args mode)) :
    WarrantedTool env (tool name description inputSchema handler) :=
  fun args mode => minds_bind (h args mode) fun _ => minds_pure _

/-- What is withheld is not offered, whatever the executor supports. -/
theorem keep_withheld : ∀ name ∈ withheld, ∀ click set, keep click set name = false := by decide

theorem warrantedTool_of_withheld {env : Externals} {click set : Bool} {name description : String}
    {inputSchema : Value} {handler : Value → AccessMode → Host Value} (h : name ∈ withheld) :
    keep click set (tool name description inputSchema handler).name = true →
      WarrantedTool env (tool name description inputSchema handler) := by
  intro hkeep
  have hnot : keep click set name = false := keep_withheld name h click set
  exact absurd (hnot.symm.trans hkeep) (by simp)

/-- **What is offered does nothing that is not in order.** -/
theorem offered_warranted (env : Externals) (click set : Bool) :
    ∀ t ∈ allTools env, keep click set t.name = true → WarrantedTool env t := by
  have hhost : ∀ t ∈ hostTools env, keep click set t.name = true → WarrantedTool env t := by
    simp only [hostTools, List.forall_mem_cons]
    exact ⟨fun _ => warrantedTool fun _ _ => shell_warranted,
      fun _ => warrantedTool fun _ _ => minds_pure _,
      fun _ => warrantedTool fun _ _ => listApps_warranted,
      fun _ => warrantedTool fun _ _ => spawnCommand_warranted,
      fun _ => warrantedTool fun _ _ => image_warranted,
      fun _ => warrantedTool fun _ _ => see_warranted,
      fun _ => warrantedTool fun _ _ => listScreens_warranted,
      fun _ => warrantedTool fun _ _ => clipboardRead_warranted,
      fun _ => warrantedTool fun _ _ => clipboardWrite_warranted,
      fun _ => warrantedTool fun _ _ => permissions_warranted,
      warrantedTool_of_withheld (by decide),
      fun _ => warrantedTool fun _ _ => screenCapture_warranted, List.forall_mem_nil _⟩
  have hsemantic : ∀ t ∈ semanticTools env, keep click set t.name = true → WarrantedTool env t := by
    simp only [semanticTools, List.forall_mem_cons]
    exact ⟨fun _ => warrantedTool fun _ _ => uiSnapshot_warranted,
      fun _ => warrantedTool fun _ _ => click_warranted, List.forall_mem_nil _⟩
  have hinput : ∀ t ∈ inputTools env, keep click set t.name = true → WarrantedTool env t := by
    simp only [inputTools, List.forall_mem_cons]
    exact ⟨warrantedTool_of_withheld (by decide), warrantedTool_of_withheld (by decide),
      warrantedTool_of_withheld (by decide), warrantedTool_of_withheld (by decide),
      warrantedTool_of_withheld (by decide), warrantedTool_of_withheld (by decide),
      warrantedTool_of_withheld (by decide), warrantedTool_of_withheld (by decide),
      fun _ => warrantedTool fun _ _ => setValue_warranted,
      warrantedTool_of_withheld (by decide), List.forall_mem_nil _⟩
  have hdesktop : ∀ t ∈ desktopTools env, keep click set t.name = true → WarrantedTool env t := by
    simp only [desktopTools, List.forall_mem_cons]
    exact ⟨warrantedTool_of_withheld (by decide), warrantedTool_of_withheld (by decide),
      warrantedTool_of_withheld (by decide), warrantedTool_of_withheld (by decide),
      warrantedTool_of_withheld (by decide), warrantedTool_of_withheld (by decide),
      List.forall_mem_nil _⟩
  intro t ht
  simp only [allTools, List.mem_append] at ht
  rcases ht with ((h | h) | h) | h
  · exact hhost t h
  · exact hsemantic t h
  · exact hinput t h
  · exact hdesktop t h

/-- The names of the tools that can be called: those that observe the screen where the
executor can act on it in some way, those that act on it where it can act in theirs. -/
def offeredNames (click set : Bool) : List String :=
  ["folk_shell", "folk_system_info", "folk_list_apps", "folk_spawn", "folk_image",
      "folk_list_screens", "folk_clipboard_read", "folk_clipboard_write", "folk_permissions",
      "folk_screen_capture"] ++
    (if click || set then observingTools else []) ++
    (if click then ["folk_click"] else []) ++ (if set then ["folk_set_value"] else [])

/-- The names of all tools, in the order they are registered. -/
theorem names_allTools (env : Externals) :
    (allTools env).map (fun t => t.name) =
      ["folk_shell", "folk_system_info", "folk_list_apps", "folk_spawn", "folk_image", "folk_see",
        "folk_list_screens", "folk_clipboard_read", "folk_clipboard_write", "folk_permissions",
        "folk_doctor", "folk_screen_capture", "folk_ui_snapshot", "folk_click", "folk_press",
        "folk_type", "folk_paste", "folk_hotkey", "folk_scroll", "folk_swipe", "folk_drag",
        "folk_move", "folk_set_value", "folk_perform_action", "folk_window", "folk_app",
        "folk_open", "folk_menu", "folk_sleep", "folk_clean"] := rfl

theorem offered_named (env : Externals) (click set : Bool) :
    ∀ t ∈ allTools env, keep click set t.name = true → t.name ∈ offeredNames click set := by
  intro t ht
  have hname : t.name ∈ (allTools env).map (fun t => t.name) := List.mem_map_of_mem ht
  rw [names_allTools] at hname
  revert hname
  generalize t.name = name
  revert name click set
  decide

/-! ## The messages -/

/-- What the server does by itself. -/
def OfServer : Effect → Prop
  | .log _ | .var _ | .hostname => True
  | _ => False

/-- What is in order while a message is handled: what the server does by itself, and what is
in order while the tool is run that the message calls, one of those of the names. -/
def AskedBy (env : Externals) (mode : AccessMode) (names : List String) (msg : Value)
    (t : Transcript Effect Answer) (e : Effect) : Prop :=
  OfServer e ∨ ∃ name args, toolCall msg = some (name, args) ∧ name ∈ names ∧
    Warranted env mode name args t e

section

variable {env : Externals} {mode : AccessMode} {names : List String} {msg : Value}

theorem logIf_asked (verbose : Bool) (text : String) :
    Minds (AskedBy env mode names msg) Seen (Mcp.logIf hostServer verbose text) := by
  unfold Mcp.logIf
  split
  · exact minds_effect lasting_seen fun _ => .inl trivial
  · exact minds_pure ()

theorem integrationName_asked (base : String) :
    Minds (AskedBy env mode names msg) Seen (Mcp.integrationName hostServer base) := by
  have hvar : ∀ name : String, Minds (AskedBy env mode names msg) Seen (hostServer.var name) :=
    fun _ => minds_effect lasting_seen fun _ => .inl trivial
  have hhost : Minds (AskedBy env mode names msg) Seen hostServer.hostname :=
    minds_effect lasting_seen fun _ => .inl trivial
  unfold Mcp.integrationName
  refine minds_bind (hvar _) fun computerName => ?_
  extract_lets named rest
  have hnamed (raw : List Char) : Minds (AskedBy env mode names msg) Seen (named raw) := by
    unfold named
    dsimp only
    split
    · exact minds_pure _
    · exact minds_pure _
  have hrest (name : Option String) : Minds (AskedBy env mode names msg) Seen (rest name) := by
    unfold rest
    split
    · exact minds_bind (minds_pure _) hnamed
    · exact minds_bind hhost fun _ => minds_bind (minds_pure _) hnamed
  cases computerName with
  | some value => exact minds_bind (minds_pure _) hrest
  | none => exact minds_bind (hvar _) hrest

/-- A notification is not answered. -/
theorem answer_asked {id : Option Value} {answer : Host (Option Value)}
    (h : Minds (AskedBy env mode names msg) Seen answer) :
    Minds (AskedBy env mode names msg) Seen
      (if Mcp.isNotification id then pure none else answer) := by
  split
  · exact minds_pure _
  · exact h

end

/-- The tools of the table have those names, and every one does only what is in order. -/
structure WarrantedTable (env : Externals) (names : List String) (table : ToolTable Host) :
    Prop where
  named : ∀ tool ∈ table.tools, tool.name ∈ names
  tools : ∀ tool ∈ table.tools, WarrantedTool env tool

variable {env : Externals} {names : List String} {table : ToolTable Host}

theorem call_asked (htable : WarrantedTable env names table) {msg : Value} {name : String}
    {arguments : Value} (hcall : toolCall msg = some (name, arguments)) :
    Minds (AskedBy env table.mode names msg) Seen (table.call name arguments) := by
  unfold ToolTable.call
  cases hfind : table.tools.find? fun tool => tool.name = name with
  | none => exact minds_pure _
  | some tool =>
      have hname : tool.name = name := by simpa using List.find?_some hfind
      have hmem : tool ∈ table.tools := List.mem_of_find?_eq_some hfind
      have hnamed : name ∈ names := hname ▸ htable.named tool hmem
      have htool := htable.tools tool hmem arguments table.mode
      rw [hname] at htool
      have hasked : Minds (AskedBy env table.mode names msg) Seen
          (tool.handler arguments table.mode) :=
        guards_mono (fun _ _ h => .inr ⟨name, arguments, hcall, hnamed, h⟩) (fun _ _ h => h)
          (fun _ _ _ h => h) htool
      refine minds_bind hasked fun result => ?_
      cases result with
      | ok value => exact minds_pure _
      | error err => exact minds_pure _

theorem callResponse_asked (htable : WarrantedTable env names table) (verbose : Bool)
    (id : Value) {msg : Value} (hmethod : msg.get "method" = some (.string "tools/call")) :
    Minds (AskedBy env table.mode names msg) Seen
      (Mcp.callResponse hostServer verbose table id msg) := by
  rcases Mcp.callResponse_cases hostServer verbose table id hmethod with
    ⟨name, arguments, hcall, heq⟩ | ⟨-, message, heq⟩
  · rw [heq]
    exact minds_bind (logIf_asked _ _) fun _ =>
      minds_bind (call_asked htable hcall) fun _ =>
        minds_bind (logIf_asked _ _) fun _ => minds_pure _
  · rw [heq]
    exact minds_pure _

theorem handleMessage_asked (htable : WarrantedTable env names table) (verbose : Bool)
    (msg : Value) :
    Minds (AskedBy env table.mode names msg) Seen
      (Mcp.handleMessage hostServer verbose table msg) := by
  unfold Mcp.handleMessage
  split
  · next method hmethod =>
      refine minds_bind (logIf_asked _ _) fun _ => ?_
      split
      · exact answer_asked (minds_bind (integrationName_asked _) fun _ => minds_pure _)
      split
      · exact minds_pure _
      split
      · exact answer_asked (minds_pure _)
      split
      · exact answer_asked (minds_pure _)
      split
      · next hcall =>
          subst hcall
          exact answer_asked
            (minds_bind (callResponse_asked htable verbose _ hmethod) fun _ => minds_pure _)
      · exact answer_asked (minds_pure _)
  · exact minds_pure _

/-- Handling messages keeps to observations that were made. -/
theorem handleAll_seen (htable : WarrantedTable env names table) (verbose : Bool)
    (messages : List Value) :
    Minds (fun _ _ => True) Seen (handleAll verbose table messages) := by
  induction messages with
  | nil => exact minds_pure _
  | cons msg rest ih =>
      have hmsg : Minds (fun _ _ => True) Seen (Mcp.handleMessage hostServer verbose table msg) :=
        guards_mono (fun _ _ _ => trivial) (fun _ _ h => h) (fun _ _ _ h => h)
          (handleMessage_asked htable verbose msg)
      exact minds_bind hmsg fun _ => minds_bind ih fun _ => minds_pure _

/-- The message that is handled when an effect is attempted, after those before it. -/
structure During (verbose : Bool) (table : ToolTable Host) (messages : List Value)
    (q : Observations) (t : Transcript Effect Answer) (e : Effect) where
  earlier : List Value
  msg : Value
  later : List Value
  messages_eq : messages = earlier ++ msg :: later
  before : Transcript Effect Answer
  during : Transcript Effect Answer
  transcript_eq : t = before ++ during
  responses : List (Option Value)
  observations : Observations
  handled : After (handleAll verbose table earlier q) before (.pure (responses, observations))
  rest : Answer e → Prog Effect Answer (Option Value × Observations)
  attempted : After (Mcp.handleMessage hostServer verbose table msg observations) during
    (.perform e rest)

/-- Every effect is one of the message that is handled. -/
theorem exists_during {verbose : Bool} {messages : List Value} {q : Observations}
    {t : Transcript Effect Answer} {e : Effect}
    {k : Answer e → Prog Effect Answer (List (Option Value) × Observations)}
    (h : After (handleAll verbose table messages q) t (.perform e k)) :
    Nonempty (During verbose table messages q t e) := by
  induction messages generalizing q t k with
  | nil => cases h
  | cons msg rest ih =>
      rcases after_bind_perform h with ⟨k', hk'⟩ | ⟨⟨response, q₁⟩, t₁, t₂, rfl, hmsg, h⟩
      · exact ⟨⟨[], msg, rest, rfl, [], t, rfl, [], q, .here _, k', hk'⟩⟩
      · rcases after_bind_perform h with ⟨k', hk'⟩ | ⟨_, _, _, _, _, hpure⟩
        · obtain ⟨d⟩ := ih hk'
          have hmessages : msg :: rest = msg :: d.earlier ++ d.msg :: d.later :=
            congrArg (List.cons msg) d.messages_eq
          have htranscript : t₁ ++ t₂ = t₁ ++ d.before ++ d.during := by
            rw [List.append_assoc]
            exact congrArg (List.append t₁) d.transcript_eq
          refine ⟨⟨msg :: d.earlier, d.msg, d.later, hmessages, t₁ ++ d.before, d.during,
            htranscript, response :: d.responses, d.observations, ?_, d.rest, d.attempted⟩⟩
          have hfirst := hmsg.bind fun p => handleAll verbose table d.earlier p.2 >>= fun r =>
            pure (p.1 :: r.1, r.2)
          exact hfirst.trans (d.handled.bind fun r => pure (response :: r.1, r.2))
        · cases hpure

/-- **Everything that is done was asked for.**  In every mode, whatever is offered and
whatever the messages: an effect that is attempted is one that the server performs by itself,
or is in order while the tool is run that is called by the message being handled, and that
tool is offered. -/
theorem effects_warranted (env : Externals) (mode : AccessMode) (click set verbose : Bool)
    (messages : List Value) {t : Transcript Effect Answer} {e : Effect}
    {k : Answer e → Prog Effect Answer (List (Option Value) × Observations)}
    (h : After (handleAll verbose (registerTools env (ToolTable.new Host mode) click set)
      messages []) t (.perform e k)) :
    ∃ d : During verbose (registerTools env (ToolTable.new Host mode) click set) messages [] t e,
      AskedBy env mode (offeredNames click set) d.msg t e := by
  have htable : WarrantedTable env (offeredNames click set)
      (registerTools env (ToolTable.new Host mode) click set) := by
    constructor
    · intro tool htool
      obtain ⟨hmem, hkeep⟩ := mem_registerTools.1 htool
      exact offered_named env click set tool hmem hkeep
    · intro tool htool
      obtain ⟨hmem, hkeep⟩ := mem_registerTools.1 htool
      exact offered_warranted env click set tool hmem hkeep
  obtain ⟨d⟩ := exists_during h
  have hseen : Seen d.observations d.before :=
    (handleAll_seen htable verbose d.earlier [] [] fun _ ho => absurd ho List.not_mem_nil).after
      d.handled
  have hmsg := (handleMessage_asked htable verbose d.msg d.observations d.before hseen).after
    d.attempted
  rw [registerTools_mode, ← d.transcript_eq] at hmsg
  exact ⟨d, hmsg.1⟩

/-! ## A click on what was seen -/

def toolMessage (name : String) (arguments : Value) : Value :=
  .object [("id", .number (.posInt 1)), ("method", .string "tools/call"),
    ("params", .object [("name", .string name), ("arguments", arguments)])]

/-- A host on which every tag has a target. -/
def targetHost : Externals := { bareHost with target := fun _ _ => .ok ⟨.null⟩ }

def seenId : String := String.ofList (List.replicate 64 'a')

def clickArgs : Value :=
  .object [("operation_id", .string "op"), ("observation_id", .string seenId),
    ("tag", .string "e1"), ("interaction_mode", .string "interactive")]

def clickMessages : List Value :=
  [toolMessage "folk_ui_snapshot" (.object []), toolMessage "folk_click" clickArgs]

/-- What is seen is kept; then it is looked up, and the executor can invoke. -/
def clickTranscript : Transcript Effect Answer :=
  [⟨.now, some (0 : Int)⟩, ⟨.semantic (.observe 30000), Except.ok (⟨seenId, 1000, .null⟩ : Observation)⟩,
    ⟨.now, some (1 : Int)⟩, ⟨.lockObservations, true⟩, ⟨.now, some (2 : Int)⟩,
    ⟨.lockObservations, true⟩, ⟨.now, some (3 : Int)⟩,
    ⟨.semantic .capabilities, Except.ok ["invoke"]⟩]

/-- The element that was seen is clicked, as the second message asks. -/
theorem effects_warranted_click :
    ∃ d : During false (registerTools targetHost (ToolTable.new Host .full) true true) clickMessages
        [] clickTranscript (.semantic (.execute .invoke ⟨.null⟩ "op" 1000 .interactive)),
      AskedBy targetHost .full (offeredNames true true) d.msg clickTranscript
        (.semantic (.execute .invoke ⟨.null⟩ "op" 1000 .interactive)) := by
  have hrun : ∃ k, After (handleAll false
      (registerTools targetHost (ToolTable.new Host .full) true true) clickMessages [])
      clickTranscript (.perform (.semantic (.execute .invoke ⟨.null⟩ "op" 1000 .interactive)) k) :=
    ⟨_, .answer _ (.answer _ (.answer _ (.answer _ (.answer _ (.answer _ (.answer _
      (.answer _ (.here _))))))))⟩
  obtain ⟨k, hk⟩ := hrun
  exact effects_warranted targetHost .full true true false clickMessages hk

end ComputerUse
end FolkAround
