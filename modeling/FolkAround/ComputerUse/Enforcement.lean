import FolkAround.ComputerUse.Register

/-!
# The access mode is enforced

Outside full mode the tools only look: whatever messages arrive, no shell and no
background program is started, nothing is written to the clipboard, no permission is
granted, nothing observed is acted on, and the programs that are run are the list of
processes and harmless commands given word by word.

* `Allowed` — the effects that are allowed while a shell command is asked for.
* `restrictedCommand_eq_some` — what a harmless command is.
* `allTools_within` — every handler keeps to what is allowed.
* `access_mode_enforced` — so does every sequence of messages.
-/

namespace FolkAround
namespace ComputerUse

open Effects
open Mcp (errResult Tool ToolTable)

/-! ## What is allowed -/

/-- A program run directly: its words are those of the command, it is one of the harmless
ones, and no word has a character that means something to a shell. -/
structure DirectRun (command : Option String) (program : String) (args : List String) : Prop where
  words : ∃ text, command = some text ∧ commandWords text = program :: args
  safe : program ∈ safeCommands
  plain : ∀ word ∈ program :: args, ∀ ch ∈ word.toList, ch ∉ restrictedShellChars

/-- The effects that are allowed when `command` is the shell command asked for. -/
def Allowed (command : Option String) : Effect → Prop
  | .run program args input cwd =>
    input = none ∧ program ≠ "/bin/sh" ∧
      (program = "ps" ∧ args = psArgs ∧ cwd = none ∨ DirectRun command program args)
  | .spawn _ _ => False
  | .act _ => False
  | .query .grantPermissions => False
  | .semantic (.execute ..) => False
  | _ => True

/-- What neither creates nor removes a file is allowed. -/
theorem allowed_of_quiet {command : Option String} : ∀ e, Quiet e → Allowed command e := by
  intro e he
  cases e with
  | semantic call =>
      cases call with
      | execute _ _ _ _ _ => exact he
      | capabilities => trivial
      | observe _ => trivial
  | run _ _ _ _ => exact he.elim
  | spawn _ _ => exact he
  | act _ => exact he
  | query _ => exact he.elim
  | _ => trivial

theorem not_shell_of_safe {program : String} (h : program ∈ safeCommands) : program ≠ "/bin/sh" := by
  rintro rfl
  exact absurd h (by decide)

/-- A harmless command is run directly. -/
theorem restrictedCommand_eq_some {command program : String} {args : List String}
    (h : restrictedCommand command = some (program, args)) :
    DirectRun (some command) program args := by
  unfold restrictedCommand at h
  by_cases hchars : (command.toList.any fun ch => ch ∈ restrictedShellChars) = true
  · rw [if_pos hchars] at h
    exact absurd h (by simp)
  · rw [if_neg hchars] at h
    cases hwords : commandWords command with
    | nil =>
        rw [hwords] at h
        exact absurd h (by simp)
    | cons first rest =>
        rw [hwords] at h
        by_cases hsafe : first ∈ safeCommands
        · simp only [if_pos hsafe, Option.some.injEq, Prod.mk.injEq] at h
          obtain ⟨rfl, rfl⟩ := h
          refine ⟨⟨command, rfl, hwords⟩, hsafe, fun word hword ch hch hbad => hchars ?_⟩
          -- the characters of the words are characters of the command
          rw [← hwords, commandWords] at hword
          obtain ⟨piece, hpiece, rfl⟩ := List.mem_map.1 hword
          rw [String.toList_ofList] at hch
          exact List.any_eq_true.2
            ⟨ch, Text.mem_of_mem_splitWhitespace hpiece hch, decide_eq_true hbad⟩
        · simp only [if_neg hsafe] at h
          exact absurd h (by simp)

/-! ## The pieces of a handler -/

variable {P : Effect → Prop} {α β : Type}

theorem within_flatten {x : Exec Value} (hx : Within P x.run) : Within P (flatten x) := by
  refine within_bind hx fun result => ?_
  cases result with
  | ok value => exact within_pure value
  | error err => exact within_pure (errResult err.text)

theorem within_perform {e : Effect} (h : P e) :
    Within P (ExceptT.lift (perform e) : Exec (Answer e)).run :=
  within_except_lift (within_effect h)

theorem within_orFail (err : ToolExecError) (a : Option α) : Within P (orFail err a).run := by
  cases a with
  | none => exact within_throw err
  | some a => exact within_except_pure a

/-- What is done with an argument that is there. -/
theorem within_orFail_bind {err : ToolExecError} {a : Option α} {f : α → Exec β}
    (hf : ∀ x, a = some x → Within P (f x).run) : Within P (orFail err a >>= f).run := by
  cases a with
  | none => exact within_throw err
  | some x => exact hf x rfl

theorem within_ofExcept (a : Except ToolExecError α) : Within P (ofExcept a).run := by
  cases a with
  | ok a => exact within_except_pure a
  | error err => exact within_throw err

theorem within_fileOk (a : Except FileError α) : Within P (fileOk a).run := by
  cases a with
  | ok a => exact within_except_pure a
  | error _ => exact within_throw ToolExecError.io

/-- Outside full mode nothing comes after the check for it. -/
theorem within_ensureMutation_bind {mode : AccessMode} (hmode : mode ≠ .full) (f : Unit → Exec α) :
    Within P (ensureMutation mode >>= f).run := by
  rw [ensureMutation, if_pos hmode]
  exact within_throw ToolExecError.blocked

theorem within_actWith {mode : AccessMode} (hmode : mode ≠ .full) (action : Exec DesktopAction)
    (done : String) : Within P (actWith mode action done) :=
  within_flatten (within_ensureMutation_bind hmode _)

theorem within_runCommand {program : String} {args : List String} {input cwd : Option String}
    (h : P (.run program args input cwd)) : Within P (runCommand program args input cwd).run := by
  refine within_except_bind (within_perform h) fun answer => ?_
  exact within_except_bind (within_orFail .io answer) fun output => within_except_pure _

theorem within_query {q : DesktopQuery} (h : P (.query q)) : Within P (query q).run :=
  within_except_bind (within_perform h) fun answer => within_orFail .peekaboo answer

/-! ## The handlers -/

variable {command : Option String} {mode : AccessMode} (env : Externals) (args : Value)

theorem shell_within (hmode : mode ≠ .full) :
    Within (Allowed (strArg args "command")) (shell args mode) := by
  refine within_flatten (within_orFail_bind fun text htext => ?_)
  rw [if_neg hmode]
  cases hrun : restrictedCommand text with
  | none => exact within_except_pure _
  | some run =>
      have hdirect : DirectRun (some text) run.1 run.2 := restrictedCommand_eq_some hrun
      refine within_except_bind (within_runCommand ?_) fun _ => within_except_pure _
      exact ⟨rfl, not_shell_of_safe hdirect.safe, .inr (htext ▸ hdirect)⟩

theorem listApps_within : Within (Allowed command) (listApps mode) := by
  refine within_flatten (within_except_bind (within_runCommand ?_) fun _ => within_except_pure _)
  exact ⟨rfl, by decide, .inl ⟨rfl, rfl, rfl⟩⟩

theorem spawnCommand_within (hmode : mode ≠ .full) :
    Within (Allowed command) (spawnCommand args mode) := by
  refine within_flatten ?_
  rw [if_pos hmode]
  exact within_except_pure _

theorem clipboardRead_within : Within (Allowed command) clipboardRead :=
  within_flatten (within_except_bind (within_perform trivial) fun answer =>
    within_except_bind (within_orFail _ answer) fun _ => within_except_pure _)

theorem permissions_within (hmode : mode ≠ .full) :
    Within (Allowed command) (permissions env args mode) := by
  refine within_flatten ?_
  by_cases hgrant : strArg args "action" = some "grant"
  · rw [if_pos hgrant]
    exact within_ensureMutation_bind hmode _
  · rw [if_neg hgrant]
    exact within_except_bind (within_perform trivial) fun _ => within_except_pure _

/-- A question whose answer is shown. -/
theorem within_asked {q : DesktopQuery} (h : P (.query q)) :
    Within P (flatten do
      let value ← query q
      pure (jsonTextResult env value)) :=
  within_flatten (within_except_bind (within_query h) fun _ => within_except_pure _)

/-! ## Screenshots and observations -/

theorem within_fileStep {op : FileOp} (h : P (.file op)) : Within P (fileStep op).run := by
  refine within_except_bind (within_except_lift (within_effect h)) fun answer => ?_
  cases answer with
  | ok _ => exact within_except_pure _
  | error _ => exact within_throw ConfigError.io

section

variable (h : ∀ e, Quiet e → P e)
include h

theorem within_ensurePrivateDir (path : String) : Within P (ensurePrivateDir path).run :=
  within_except_bind (within_fileStep (h _ trivial)) fun _ => within_fileStep (h _ trivial)

theorem within_configDir : Within P configDir.run := by
  refine within_except_bind (within_except_lift (within_effect (h _ trivial))) fun home => ?_
  cases home with
  | none => exact within_throw ConfigError.homeMissing
  | some home => exact within_except_pure _

theorem within_generateHex (count : Nat) : Within P (generateHex count) :=
  within_bind (within_effect (h _ trivial)) fun _ => within_pure _

theorem within_screenshotReference (capture : ImageCapture) :
    Within P (screenshotReference env capture).run := by
  unfold screenshotReference
  split
  · refine within_except_bind (within_perform (h _ trivial)) fun opened => ?_
    refine within_except_bind (within_fileOk opened) fun _ => ?_
    refine within_except_bind (within_perform (h _ trivial)) fun metadata => ?_
    refine within_except_bind (within_fileOk metadata) fun metadata => ?_
    split
    · exact within_throw ToolExecError.screenshotReferenceUnavailable
    refine within_except_bind (within_perform (h _ trivial)) fun restricted => ?_
    refine within_except_bind (within_fileOk restricted) fun _ => ?_
    refine within_except_bind (within_perform (h _ trivial)) fun metadata => ?_
    refine within_except_bind (within_fileOk metadata) fun metadata => ?_
    split
    · exact within_throw ToolExecError.screenshotReferenceUnavailable
    refine within_except_bind (within_perform (h _ trivial)) fun contents => ?_
    refine within_except_bind (within_fileOk contents) fun contents => ?_
    split
    · exact within_throw ToolExecError.screenshotReferenceUnavailable
    · exact within_except_pure _
  · exact within_throw ToolExecError.screenshotReferenceUnavailable

theorem within_nowMs : Within P nowMs.run :=
  within_except_bind (within_perform (h _ trivial)) fun now => within_orFail _ now

theorem within_lockObservations : Within P lockObservations.run := by
  refine within_except_bind (within_perform (h _ trivial)) fun locked => ?_
  split
  · exact within_except_lift within_get
  · exact within_throw ToolExecError.semanticUnavailable

theorem within_cacheObservation (observation : Observation) :
    Within P (cacheObservation env observation).run :=
  within_except_bind (within_nowMs h) fun _ =>
    within_except_bind (within_ofExcept _) fun _ =>
      within_except_bind (within_lockObservations h) fun _ =>
        within_except_bind (within_nowMs h) fun _ => within_except_lift (within_set _)

theorem within_observeSemantic : Within P (observeSemantic env).run :=
  within_except_bind (within_nowMs h) fun _ =>
    within_except_bind (within_perform (h _ trivial)) fun observed =>
      within_except_bind (within_ofExcept observed) fun observation =>
        within_except_bind (within_cacheObservation env h observation) fun _ => within_except_pure _

end

theorem within_createArtifactIn (dir : String) (tries : Nat) :
    Within (Allowed command) (createArtifactIn dir tries).run := by
  induction tries with
  | zero => exact within_throw ConfigError.io
  | succ tries ih =>
      refine within_except_bind (within_except_lift (within_generateHex allowed_of_quiet _))
        fun id => ?_
      refine within_except_bind (within_except_lift (within_effect trivial)) fun opened => ?_
      match opened with
      | .ok () =>
          exact within_except_bind (within_fileStep trivial) fun _ =>
            within_except_bind (within_fileStep trivial) fun _ =>
              within_except_bind (within_fileStep trivial) fun _ => within_except_pure _
      | .error .alreadyExists => exact ih
      | .error .other => exact within_throw ConfigError.io

theorem within_createArtifactFile : Within (Allowed command) (createArtifactFile env).run := by
  unfold createArtifactFile
  split
  · exact within_except_bind (within_configDir allowed_of_quiet) fun _ =>
      within_except_bind (within_ensurePrivateDir allowed_of_quiet _) fun _ =>
        within_except_bind (within_ensurePrivateDir allowed_of_quiet _) fun _ =>
          within_createArtifactIn _ _
  · exact within_throw ConfigError.privatePermissionsUnavailable

theorem within_newArtifact : Within (Allowed command) (newArtifact env).run :=
  within_adapt _ (within_createArtifactFile env)

theorem within_imageResult (metadata : List (String × Value)) (capture : ImageCapture)
    (locator : String) : Within (Allowed command) (imageResult env metadata capture locator).run := by
  unfold imageResult
  split
  · exact within_except_bind (within_perform trivial) fun _ =>
      within_throw ToolExecError.screenshotReferenceUnavailable
  · exact within_except_bind (within_screenshotReference env allowed_of_quiet capture) fun _ =>
      within_except_pure _

theorem within_ensureScreenshotReferenceSupported :
    Within P (ensureScreenshotReferenceSupported env).run := by
  unfold ensureScreenshotReferenceSupported
  split
  · exact within_except_pure ()
  · exact within_throw ToolExecError.screenshotReferenceUnavailable

theorem within_captureImage (captureMode : ImageMode) (path : String) (retina : Bool) :
    Within (Allowed command) (captureImage captureMode path retina).run :=
  within_except_bind (within_perform trivial) fun answer => within_orFail _ answer

theorem screenCapture_within : Within (Allowed command) (screenCapture env args mode) := by
  refine within_flatten ?_
  refine within_except_bind (within_ensureScreenshotReferenceSupported env) fun _ => ?_
  extract_lets target
  split
  · exact within_throw ToolExecError.coordinatesUnavailable
  · exact within_except_bind (within_newArtifact env) fun artifact =>
      within_except_bind (within_captureImage _ _ _) fun capture => within_imageResult env _ _ _

theorem image_within : Within (Allowed command) (image env args mode) := by
  refine within_flatten ?_
  refine within_except_bind (within_ensureScreenshotReferenceSupported env) fun _ => ?_
  refine within_except_bind (within_newArtifact env) fun artifact => ?_
  extract_lets retina shown
  have hshown (capture : ImageCapture) : Within (Allowed command) (shown capture).run :=
    within_imageResult env _ capture _
  split
  · exact within_except_bind (within_perform trivial) fun answer =>
      within_except_bind (within_orFail _ answer) hshown
  · exact within_except_bind (within_orFail _ _) fun captureMode =>
      within_except_bind (within_captureImage _ _ _) hshown

theorem see_within : Within (Allowed command) (see env args mode) :=
  within_flatten <|
    within_except_bind (within_ensureScreenshotReferenceSupported env) fun _ =>
      within_except_bind (within_orFail _ _) fun _ =>
        within_except_bind (within_newArtifact env) fun _ =>
          within_except_bind (within_observeSemantic env allowed_of_quiet) fun _ =>
            within_except_bind (within_captureImage _ _ _) fun _ => within_imageResult env _ _ _

theorem uiSnapshot_within : Within (Allowed command) (uiSnapshot env mode) :=
  within_flatten (within_except_bind (within_observeSemantic env allowed_of_quiet) fun _ =>
    within_except_pure _)

/-! ## Windows, applications, menus -/

theorem within_ensureSafeFocusOrFull_bind (hmode : mode ≠ .full) (action : String)
    {f : Unit → Exec α} (hf : Within P (f ()).run) :
    Within P (ensureSafeFocusOrFull mode action >>= f).run := by
  unfold ensureSafeFocusOrFull
  split
  · exact hf
  · exact within_ensureMutation_bind hmode f

theorem within_pointArg : Within P (pointArg env args).run :=
  within_except_bind (within_orFail _ _) fun _ =>
    within_except_bind (within_orFail _ _) fun _ => within_except_pure _

theorem within_windowBounds (action : String) : Within P (windowBounds env action args).run := by
  unfold windowBounds
  split
  · exact within_except_bind (within_pointArg env args) fun _ => within_except_pure _
  split
  · exact within_except_bind (within_orFail _ _) fun _ =>
      within_except_bind (within_orFail _ _) fun _ => within_except_pure _
  split
  · exact within_except_bind (within_pointArg env args) fun _ =>
      within_except_bind (within_orFail _ _) fun _ =>
        within_except_bind (within_orFail _ _) fun _ => within_except_pure _
  · exact within_throw (ToolExecError.missing "action")

theorem window_within (hmode : mode ≠ .full) : Within (Allowed command) (window env args mode) := by
  refine within_flatten ?_
  split
  · exact within_except_bind (within_query trivial) fun _ => within_except_pure _
  extract_lets rest
  have hrest : Within (Allowed command) (rest ()).run := by
    refine within_except_bind (within_orFail _ _) fun app => ?_
    split
    · exact within_except_bind (within_query trivial) fun _ => within_except_pure _
    split
    · refine within_except_bind (within_windowBounds env args _) fun bounds => ?_
      exact within_except_bind (within_query trivial) fun _ => within_except_pure _
    · exact within_throw (ToolExecError.missing "action")
  split
  · exact within_ensureSafeFocusOrFull_bind hmode _ hrest
  · exact within_ensureMutation_bind hmode _

theorem app_within (hmode : mode ≠ .full) : Within (Allowed command) (app args mode) := by
  unfold app
  extract_lets action rest
  split
  · exact listApps_within
  refine within_flatten ?_
  have hrest : Within (Allowed command) (rest ()).run := by
    refine within_except_bind (within_orFail _ _) fun app => ?_
    split
    · exact within_except_bind (within_query trivial) fun _ => within_except_pure _
    · exact within_throw (ToolExecError.missing "action")
  split
  · exact within_ensureSafeFocusOrFull_bind hmode _ hrest
  · exact within_ensureMutation_bind hmode _

theorem menu_within (hmode : mode ≠ .full) : Within (Allowed command) (menu env args mode) := by
  refine within_flatten ?_
  refine within_except_bind (within_orFail _ _) fun action => ?_
  refine within_except_bind (within_orFail _ _) fun app => ?_
  split
  · exact within_except_bind (within_query trivial) fun _ => within_except_pure _
  · exact within_ensureMutation_bind hmode _

theorem sleep_within : Within (Allowed command) (sleep env args) :=
  within_bind (within_effect trivial) fun _ => within_pure _

/-! ## The tools -/

/-- The shell command that a call of a tool asks for. -/
def shellCommandOf (name : String) (args : Value) : Option String :=
  if name = "folk_shell" then strArg args "command" else none

/-- Outside full mode the tool keeps to what is allowed. -/
def Enforced (tool : Tool Host) : Prop :=
  ∀ args mode, mode ≠ .full →
    Within (Allowed (shellCommandOf tool.name args)) (tool.handler args mode)

theorem enforced_tool {name description : String} {inputSchema : Value}
    {handler : Value → AccessMode → Host Value}
    (h : ∀ args mode, mode ≠ .full →
      Within (Allowed (shellCommandOf name args)) (handler args mode)) :
    Enforced (tool name description inputSchema handler) :=
  fun args mode hmode => within_bind (h args mode hmode) fun _ => within_pure _

theorem hostTools_enforced : ∀ tool ∈ hostTools env, Enforced tool := by
  simp only [hostTools, List.forall_mem_cons]
  exact ⟨enforced_tool fun args mode hmode => shell_within args hmode,
    enforced_tool fun _ _ _ => within_pure _,
    enforced_tool fun _ _ _ => listApps_within,
    enforced_tool fun args _ hmode => spawnCommand_within args hmode,
    enforced_tool fun args _ _ => image_within env args,
    enforced_tool fun args _ _ => see_within env args,
    enforced_tool fun _ _ _ => within_asked env trivial,
    enforced_tool fun _ _ _ => clipboardRead_within,
    enforced_tool fun _ _ hmode => within_actWith hmode _ _,
    enforced_tool fun args _ hmode => permissions_within env args hmode,
    enforced_tool fun _ _ _ => within_asked env trivial,
    enforced_tool fun args _ _ => screenCapture_within env args,
    List.forall_mem_nil _⟩

theorem semanticTools_enforced : ∀ tool ∈ semanticTools env, Enforced tool := by
  simp only [semanticTools, List.forall_mem_cons]
  exact ⟨enforced_tool fun _ _ _ => uiSnapshot_within env,
    enforced_tool fun _ _ hmode => within_flatten (within_ensureMutation_bind hmode _),
    List.forall_mem_nil _⟩

theorem inputTools_enforced : ∀ tool ∈ inputTools env, Enforced tool := by
  simp only [inputTools, List.forall_mem_cons]
  exact ⟨enforced_tool fun _ _ hmode => within_actWith hmode _ _,
    enforced_tool fun _ _ hmode => within_actWith hmode _ _,
    enforced_tool fun _ _ hmode => within_actWith hmode _ _,
    enforced_tool fun _ _ hmode => within_actWith hmode _ _,
    enforced_tool fun _ _ hmode => within_actWith hmode _ _,
    enforced_tool fun _ _ hmode => within_flatten (within_ensureMutation_bind hmode _),
    enforced_tool fun _ _ hmode => within_flatten (within_ensureMutation_bind hmode _),
    enforced_tool fun _ _ hmode => within_flatten (within_ensureMutation_bind hmode _),
    enforced_tool fun _ _ hmode => within_flatten (within_ensureMutation_bind hmode _),
    enforced_tool fun _ _ hmode => within_actWith hmode _ _,
    List.forall_mem_nil _⟩

theorem desktopTools_enforced : ∀ tool ∈ desktopTools env, Enforced tool := by
  simp only [desktopTools, List.forall_mem_cons]
  exact ⟨enforced_tool fun args _ hmode => window_within env args hmode,
    enforced_tool fun args _ hmode => app_within args hmode,
    enforced_tool fun _ _ hmode => within_actWith hmode _ _,
    enforced_tool fun args _ hmode => menu_within env args hmode,
    enforced_tool fun args _ _ => sleep_within env args,
    enforced_tool fun _ _ hmode => within_flatten (within_ensureMutation_bind hmode _),
    List.forall_mem_nil _⟩

theorem allTools_enforced : ∀ tool ∈ allTools env, Enforced tool := by
  intro tool htool
  simp only [allTools, List.mem_append] at htool
  rcases htool with ((h | h) | h) | h
  · exact hostTools_enforced env tool h
  · exact semanticTools_enforced env tool h
  · exact inputTools_enforced env tool h
  · exact desktopTools_enforced env tool h

theorem registerTools_mode (table : ToolTable Host) (click set : Bool) :
    (registerTools env table click set).mode = table.mode := by
  simp [registerTools, foldl_register, ToolTable.retain]

theorem registerTools_enforced (click set : Bool) :
    ∀ tool ∈ (registerTools env (ToolTable.new Host mode) click set).tools, Enforced tool := by
  intro tool htool
  exact allTools_enforced env tool (mem_registerTools.1 htool).1

/-! ## The messages -/

/-- The server on the host. -/
def hostServer : Mcp.ServerHost Host where
  log text := perform (.log text)
  var name := perform (.var name)
  hostname := perform .hostname

/-- The shell command that a message asks for. -/
def shellCommand (msg : Value) : Option String :=
  match msg.get "params" with
  | some (.object params) =>
    match (Value.object params).get "name" with
    | some (.string name) =>
      shellCommandOf name (((Value.object params).get "arguments").getD (.object []))
    | _ => none
  | _ => none

/-- Handle one message after the other. -/
def handleAll (verbose : Bool) (table : ToolTable Host) : List Value → Host (List (Option Value))
  | [] => pure []
  | msg :: rest => do
    let response ← Mcp.handleMessage hostServer verbose table msg
    let responses ← handleAll verbose table rest
    pure (response :: responses)

/-- A table whose tools all keep to what is allowed, outside full mode. -/
structure EnforcedTable (table : ToolTable Host) : Prop where
  mode : table.mode ≠ .full
  tools : ∀ tool ∈ table.tools, Enforced tool

variable {table : ToolTable Host}

theorem call_within (htable : EnforcedTable table) (name : String) (arguments : Value) :
    Within (Allowed (shellCommandOf name arguments)) (table.call name arguments) := by
  unfold ToolTable.call
  cases hfind : table.tools.find? fun tool => tool.name = name with
  | none => exact within_pure _
  | some tool =>
      have hname : tool.name = name := by simpa using List.find?_some hfind
      have htool :=
        htable.tools tool (List.mem_of_find?_eq_some hfind) arguments table.mode htable.mode
      rw [hname] at htool
      refine within_bind htool fun result => ?_
      cases result with
      | ok value => exact within_pure _
      | error err => exact within_pure _

theorem logIf_within (verbose : Bool) (text : String) :
    Within (Allowed command) (Mcp.logIf hostServer verbose text) := by
  unfold Mcp.logIf
  split
  · exact within_effect trivial
  · exact within_pure ()

theorem callResponse_within (htable : EnforcedTable table) (verbose : Bool) (id msg : Value) :
    Within (Allowed (shellCommand msg)) (Mcp.callResponse hostServer verbose table id msg) := by
  unfold Mcp.callResponse
  split
  · rename_i params hparams
    split
    · rename_i name hname
      have hcommand : shellCommand msg =
          shellCommandOf name (((Value.object params).get "arguments").getD (.object [])) := by
        simp only [shellCommand, hparams, hname]
      rw [hcommand]
      exact within_bind (logIf_within _ _) fun _ =>
        within_bind (call_within htable _ _) fun _ =>
          within_bind (logIf_within _ _) fun _ => within_pure _
    · exact within_pure _
  · exact within_pure _

theorem integrationName_within (base : String) :
    Within (Allowed command) (Mcp.integrationName hostServer base) := by
  unfold Mcp.integrationName
  refine within_bind (within_effect trivial) fun computerName => ?_
  extract_lets named rest
  have hnamed (raw : List Char) : Within (Allowed command) (named raw) := by
    unfold named
    dsimp only
    split
    · exact within_pure _
    · exact within_pure _
  have hrest (name : Option String) : Within (Allowed command) (rest name) := by
    unfold rest
    split
    · exact within_bind (within_pure _) hnamed
    · exact within_bind (within_effect trivial) fun _ => within_bind (within_pure _) hnamed
  cases computerName with
  | some value => exact within_bind (within_pure _) hrest
  | none => exact within_bind (within_effect trivial) hrest

/-- A notification is not answered. -/
theorem within_answer {id : Option Value} {answer : Host (Option Value)}
    (h : Within (Allowed command) answer) :
    Within (Allowed command) (if Mcp.isNotification id then pure none else answer) := by
  split
  · exact within_pure _
  · exact h

theorem handleMessage_within (htable : EnforcedTable table) (verbose : Bool) (msg : Value) :
    Within (Allowed (shellCommand msg)) (Mcp.handleMessage hostServer verbose table msg) := by
  unfold Mcp.handleMessage
  split
  · refine within_bind (logIf_within _ _) fun _ => ?_
    split
    · exact within_answer (within_bind (integrationName_within _) fun _ => within_pure _)
    split
    · exact within_pure _
    split
    · exact within_answer (within_pure _)
    split
    · exact within_answer (within_pure _)
    split
    · exact within_answer
        (within_bind (callResponse_within htable verbose _ _) fun _ => within_pure _)
    · exact within_answer (within_pure _)
  · exact within_pure _

theorem handleAll_within (htable : EnforcedTable table) (verbose : Bool) (messages : List Value) :
    Within (fun e => ∃ msg ∈ messages, Allowed (shellCommand msg) e)
      (handleAll verbose table messages) := by
  induction messages with
  | nil => exact within_pure _
  | cons msg rest ih =>
      refine within_bind (within_mono (fun e he => ?_) (handleMessage_within htable verbose msg))
        fun _ => within_bind (within_mono (fun e he => ?_) ih) fun _ => within_pure _
      · exact ⟨msg, List.mem_cons_self, he⟩
      · obtain ⟨other, hother, he⟩ := he
        exact ⟨other, List.mem_cons_of_mem msg hother, he⟩

/-- **The access mode is enforced.**  Whatever is offered and whatever the messages ask
for, outside full mode every effect that is attempted is one that is allowed for one of
them. -/
theorem access_mode_enforced (hmode : mode ≠ .full) (click set verbose : Bool)
    (messages : List Value) (observations : Observations) (trace : List Effect)
    (htrace : Attempts
      (handleAll verbose (registerTools env (ToolTable.new Host mode) click set) messages observations)
      trace) :
    ∀ e ∈ trace, ∃ msg ∈ messages, Allowed (shellCommand msg) e := by
  have htable : EnforcedTable (registerTools env (ToolTable.new Host mode) click set) :=
    ⟨by rwa [registerTools_mode], registerTools_enforced env click set⟩
  exact within_iff.1 (handleAll_within htable verbose messages observations) trace htrace

def callMessage (name command : String) : Value :=
  .object [("id", .number (.posInt 1)), ("method", .string "tools/call"),
    ("params", .object [("name", .string name),
      ("arguments", .object [("command", .string command)])])]

def sandboxMessages : List Value :=
  [callMessage "folk_shell" "echo hi", callMessage "folk_spawn" "echo hi",
    callMessage "folk_list_apps" ""]

/-- In the sandbox `echo` is run by itself, nothing is spawned, and the processes are
listed. -/
theorem access_mode_enforced_sandbox :
    Attempts
      (handleAll false (registerTools bareHost (ToolTable.new Host .sandbox) true true)
        sandboxMessages [])
      [.run "echo" ["hi"] none none, .run "ps" psArgs none none] ∧
    ∀ e ∈ [Effect.run "echo" ["hi"] none none, .run "ps" psArgs none none],
      ∃ msg ∈ sandboxMessages, Allowed (shellCommand msg) e := by
  have htrace : Attempts
      (handleAll false (registerTools bareHost (ToolTable.new Host .sandbox) true true)
        sandboxMessages [])
      [.run "echo" ["hi"] none none, .run "ps" psArgs none none] :=
    -- `echo` does not start
    .answer none (.attempt _ _)
  exact ⟨htrace, access_mode_enforced bareHost (by decide) true true false sandboxMessages []
    _ htrace⟩

end ComputerUse
end FolkAround
