import FolkAround.Main

/-!
# Starting again

A run that serves over the network saves its settings.  A later run that finds them does
the same again.

* `GoesBy` — what a part of the daemon may do that goes by a configuration; both ways to
  serve over the network do (`serveP2P_within`, `serveHttp_within`).
* `run_loaded` — how far a run has come that has loaded a configuration.
* `GoesOnTo` — the effect that comes next after some answers.
* `Rejoins`, `ServesAgain` — what a run does that finds a configuration which was saved.
* `restart_reuses` — a run, and the next one.
-/

namespace FolkAround
namespace Daemon

open Effects
open FolkAround.Core (AppConfig)

/-! ## What is saved and served -/

/-- The effects of a part that goes by a configuration: it loads nothing and draws no code,
saves nothing else, and is in the room and at the port of the configuration, in its mode.
Whether it joins a room at all is said by `joins`. -/
def GoesBy (joins : Bool) (config : AppConfig) : Effect → Prop
  | .loadConfig | .generatePairingCode | .runStdio .. => False
  | .saveConfig saved => saved = config
  | .startP2P _ mode url room => joins = true ∧ config.signalUrl = some url ∧
      config.room = some room ∧ config.mode = some mode.asStr
  | .runHttp _ mode port _ => config.httpPort = some port ∧ config.mode = some mode.asStr
  | _ => True

/-- The effects of a part that neither loads nor saves. -/
def SavesNothing : Effect → Prop
  | .loadConfig | .saveConfig _ => False
  | _ => True

def NotLoad (e : Effect) : Prop := e ≠ .loadConfig

theorem notLoad_of_goesBy {joins : Bool} {config : AppConfig} :
    ∀ e, GoesBy joins config e → NotLoad e := by
  rintro e he rfl
  exact he

theorem notLoad_of_savesNothing : ∀ e, SavesNothing e → NotLoad e := by
  rintro e he rfl
  exact he

section

variable {P : Effect → Prop}

theorem within_perform (e : Effect) (he : P e) : (perform e).run.Within P := ⟨he, fun _ => trivial⟩

theorem within_configOk {α : Type} (a : Except ConfigError α) : (configOk a).run.Within P := by
  cases a with
  | ok a => trivial
  | error err => trivial

theorem within_transportOk {α : Type} (a : Except Transport.TransportError α) :
    (transportOk a).run.Within P := by
  cases a with
  | ok a => trivial
  | error err => trivial

theorem within_saveConfig {saved : AppConfig} (h : P (.saveConfig saved)) :
    (saveConfig saved).run.Within P :=
  Prog.within_except_bind (within_perform _ h) fun answer => within_configOk answer

theorem within_logVerbose (hlog : ∀ text, P (.logStatus text)) (verbose : Bool) (text : String) :
    (logVerbose verbose text).run.Within P := by
  cases verbose with
  | false => trivial
  | true => exact within_perform (.logStatus text) (hlog text)

theorem within_runHttp {verbose : Bool} {mode : AccessMode} {port : UInt16}
    (hbearer : P .loadOrCreateHttpBearer) (hrun : ∀ bearer, P (.runHttp verbose mode port bearer)) :
    (runHttp verbose mode port).run.Within P :=
  Prog.within_except_bind (within_perform .loadOrCreateHttpBearer hbearer) fun bearer =>
    Prog.within_except_bind (within_configOk bearer) fun bearer =>
      Prog.within_except_bind (within_perform (.runHttp verbose mode port bearer) (hrun bearer))
        fun served => within_transportOk served

theorem within_printPairingInstructions (hlog : ∀ text, P (.logStatus text)) (url room : String)
    (port : UInt16) : (printPairingInstructions url room port).run.Within P :=
  have hline (text : String) : (logStatus text).run.Within P :=
    within_perform (.logStatus text) (hlog text)
  Prog.within_except_bind (hline _) fun _ =>
    Prog.within_except_bind (hline _) fun _ => Prog.within_except_bind (hline _) fun _ => hline _

theorem within_serveStdio {verbose : Bool} {mode : AccessMode} (hlog : ∀ text, P (.logStatus text))
    (hrun : P (.runStdio verbose mode)) : (serveStdio verbose mode).run.Within P :=
  Prog.within_except_bind (within_logVerbose hlog _ _) fun _ =>
    Prog.within_except_bind (within_perform (.runStdio verbose mode) hrun) fun served =>
      within_transportOk served

end

section

variable {mode : AccessMode} {modeName : String} (verbose : Bool) (url room : String)
  (port : UInt16)

theorem serveP2P_within (hmode : modeName = mode.asStr) :
    (serveP2P verbose mode modeName url room port).run.Within
      (GoesBy true ⟨some url, some room, some port, some modeName⟩) := by
  refine Prog.within_except_bind (within_saveConfig rfl) fun _ => ?_
  refine Prog.within_except_bind (within_logVerbose (fun _ => trivial) _ _) fun _ => ?_
  refine Prog.within_except_bind (within_perform (.startP2P verbose mode url room)
    ⟨rfl, rfl, rfl, congrArg some hmode⟩) fun _ => ?_
  refine Prog.within_except_bind (within_printPairingInstructions (fun _ => trivial) _ _ _)
    fun _ => ?_
  exact within_runHttp trivial fun _ => ⟨rfl, congrArg some hmode⟩

theorem serveHttp_within (saved : AppConfig) (hmode : modeName = mode.asStr) :
    (serveHttp verbose mode modeName saved port).run.Within
      (GoesBy false ⟨saved.signalUrl, saved.room, some port, some modeName⟩) := by
  refine Prog.within_except_bind (within_saveConfig rfl) fun _ => ?_
  refine Prog.within_except_bind (within_perform (.logStatus _) trivial) fun _ => ?_
  exact within_runHttp trivial fun _ => ⟨rfl, congrArg some hmode⟩

end

/-! ## Loading -/

theorem resolveRoom_within (cli : Cli) (saved : AppConfig) :
    (resolveRoom cli saved).run.Within SavesNothing := by
  unfold resolveRoom
  cases cli.room with
  | some room => trivial
  | none =>
    cases saved.room with
    | some room => trivial
    | none => exact within_perform .generatePairingCode trivial

/-- The configuration is loaded once. -/
theorem start_within (cli : Cli) (saved : AppConfig) : (start cli saved).run.Within NotLoad := by
  unfold start
  extract_lets modeName
  split
  · exact Prog.within_mono notLoad_of_savesNothing
      (Prog.within_except_bind (within_perform (.logStatus _) trivial) fun _ => trivial)
  · next mode hmode =>
      have hname := AccessMode.parse_eq_some_iff.1 hmode
      split
      · exact Prog.within_except_bind
          (Prog.within_mono notLoad_of_savesNothing (resolveRoom_within cli saved))
          fun _ => Prog.within_mono notLoad_of_goesBy (serveP2P_within _ _ _ _ hname)
      · exact Prog.within_mono notLoad_of_goesBy (serveHttp_within _ _ _ hname)
      · exact Prog.within_mono notLoad_of_savesNothing
          (within_serveStdio (fun _ => trivial) trivial)

abbrev DaemonTranscript := Transcript Effect Answer

/-- The configuration was loaded. -/
def Loaded (t : DaemonTranscript) (config : AppConfig) : Prop := ⟨.loadConfig, .ok config⟩ ∈ t

/-- The configuration was saved. -/
def Saved (t : DaemonTranscript) (config : AppConfig) : Prop := ⟨.saveConfig config, .ok ()⟩ ∈ t

/-- A run that neither prints its help nor its version loads the configuration. -/
theorem after_load {args : List String} (hhelp : (parseArgsFrom args).help ≠ true)
    (hversion : (parseArgsFrom args).version ≠ true) (loaded : AppConfig) :
    After (run args).run [⟨.loadConfig, .ok loaded⟩] (start (parseArgsFrom args) loaded).run := by
  unfold run
  extract_lets cli
  rw [if_neg hhelp, if_neg hversion]
  exact After.answer (R := Answer) (e := .loadConfig) (.ok loaded) (.here _)

/-- A run that has loaded a configuration has gone on with it. -/
theorem run_loaded {args : List String} {t : DaemonTranscript} {rest : Prog Effect Answer _}
    {loaded : AppConfig} (h : After (run args).run t rest) (hloaded : Loaded t loaded) :
    ∃ t', t = ⟨.loadConfig, .ok loaded⟩ :: t' ∧
      After (start (parseArgsFrom args) loaded).run t' rest := by
  have hnot {x : Exec Unit} (hx : x.run.Within NotLoad) : ¬ After x.run t rest :=
    fun h => absurd rfl (h.within hx _ hloaded)
  unfold run at h
  extract_lets cli at h
  by_cases hhelp : cli.help = true
  · rw [if_pos hhelp] at h
    exact absurd h (hnot (within_perform .printHelp (by simp [NotLoad])))
  rw [if_neg hhelp] at h
  by_cases hversion : cli.version = true
  · rw [if_pos hversion] at h
    exact absurd h (hnot (within_perform .printVersion (by simp [NotLoad])))
  rw [if_neg hversion] at h
  rcases after_perform_iff.1 h with ⟨rfl, -⟩ | ⟨r, t', rfl, hrest⟩
  · exact absurd hloaded List.not_mem_nil
  cases r with
  | error err =>
      cases hrest with
      | here =>
          obtain ⟨-, heq⟩ := Exchange.mk.inj (List.mem_singleton.1 hloaded)
          cases heq
  | ok loaded' =>
      have hrest : After (start cli loaded').run t' rest := hrest
      rcases List.mem_cons.1 hloaded with heq | hlater
      · obtain ⟨-, heq⟩ := Exchange.mk.inj heq
        cases heq
        exact ⟨t', rfl, hrest⟩
      · exact absurd rfl (hrest.within (start_within cli loaded') _ hlater)

/-! ## How far a start has come -/

section

variable {cli : Cli} {loaded saved : AppConfig} {mode : AccessMode} {t : DaemonTranscript}
  {rest : Prog Effect Answer (Except Failure Unit)}

theorem start_p2p {url : String} {port : Option UInt16}
    (hmode : AccessMode.parse (resolveMode cli loaded) = some mode)
    (htransport : transport cli loaded = (some url, port)) :
    start cli loaded = (do
      let room ← resolveRoom cli loaded
      serveP2P cli.verbose mode (resolveMode cli loaded) url room (port.getD 8080)) := by
  simp only [start, hmode, htransport]

theorem start_http {port : UInt16} (hmode : AccessMode.parse (resolveMode cli loaded) = some mode)
    (htransport : transport cli loaded = (none, some port)) :
    start cli loaded = serveHttp cli.verbose mode (resolveMode cli loaded) loaded port := by
  simp only [start, hmode, htransport]

theorem start_stdio (hmode : AccessMode.parse (resolveMode cli loaded) = some mode)
    (htransport : transport cli loaded = (none, none)) :
    start cli loaded = serveStdio cli.verbose mode := by
  simp only [start, hmode, htransport]

theorem not_saved {x y : Prog Effect Answer α} (h : After x t y) (hx : x.Within SavesNothing)
    (r : Except ConfigError Unit) : (⟨.saveConfig saved, r⟩ : Exchange Effect Answer) ∉ t :=
  fun hsaved => h.within hx _ hsaved

/-- A start whose mode is none of the three says so and ends. -/
theorem within_start_of_no_mode {P : Effect → Prop} (hlog : ∀ text, P (.logStatus text))
    (hmode : AccessMode.parse (resolveMode cli loaded) = none) :
    (start cli loaded).run.Within P := by
  simp only [start, hmode]
  exact Prog.within_except_bind (within_perform (.logStatus _) (hlog _)) fun _ => trivial

/-- The mode has to be one of the three for anything to be saved. -/
theorem mode_of_saved (h : After (start cli loaded).run t rest) {r : Except ConfigError Unit}
    (hsaved : (⟨.saveConfig saved, r⟩ : Exchange Effect Answer) ∈ t) :
    ∃ mode, AccessMode.parse (resolveMode cli loaded) = some mode := by
  cases hmode : AccessMode.parse (resolveMode cli loaded) with
  | some mode => exact ⟨mode, rfl⟩
  | none => exact absurd hsaved (not_saved h (within_start_of_no_mode (fun _ => trivial) hmode) r)

/-- With a room at hand the run goes on, and otherwise with the one that was generated. -/
theorem after_resolveRoom {f : String → Exec Unit}
    (h : After (resolveRoom cli loaded >>= f).run t rest) :
    t = [] ∨ ∃ room before after, t = before ++ after ∧ After (f room).run after rest ∧
      ((before = [] ∧ cli.room.or loaded.room = some room) ∨
        (before = [⟨.generatePairingCode, room⟩] ∧ cli.room.or loaded.room = none)) := by
  unfold resolveRoom at h
  cases hcli : cli.room with
  | some room =>
      rw [hcli] at h
      exact .inr ⟨room, [], t, rfl, h, .inl ⟨rfl, rfl⟩⟩
  | none =>
    rw [hcli] at h
    cases hloaded : loaded.room with
    | some room =>
        rw [hloaded] at h
        exact .inr ⟨room, [], t, rfl, h, .inl ⟨rfl, rfl⟩⟩
    | none =>
        rw [hloaded] at h
        rcases after_perform_iff.1 h with ⟨rfl, -⟩ | ⟨room, t', rfl, hrest⟩
        · exact .inl rfl
        · exact .inr ⟨room, [⟨.generatePairingCode, room⟩], t', rfl, hrest, .inr ⟨rfl, rfl⟩⟩

end

/-! ## The mode of the command line -/

theorem mode_flag (cli : Cli) (arg : String) : (cli.flag arg).mode = cli.mode := by
  unfold Cli.flag
  split_ifs <;> rfl

theorem mode_valueFlag {arg : String} (harg : arg ≠ "--mode") {set : Cli → String → Cli}
    (hset : valueFlag arg = some set) (cli : Cli) (value : String) :
    (set cli value).mode = cli.mode := by
  unfold valueFlag at hset
  rw [if_neg harg] at hset
  split_ifs at hset <;> cases hset <;> rfl

/-- What follows on the command line without `--mode` leaves the mode alone. -/
theorem mode_parseArgsInto (cli : Cli) {args : List String} (h : "--mode" ∉ args) :
    (parseArgsInto cli args).mode = cli.mode := by
  induction cli, args using parseArgsInto.induct with
  | case1 cli => rfl
  | case2 cli arg hvalue => rw [parseArgsInto, if_pos hvalue]
  | case3 cli arg hvalue =>
      rw [parseArgsInto, if_neg hvalue]
      exact mode_flag cli arg
  | case4 cli arg value more set hset ih =>
      have harg : arg ≠ "--mode" := fun heq => h (heq ▸ List.mem_cons_self)
      simp only [parseArgsInto, hset]
      rw [ih fun hmem => h (List.mem_cons_of_mem _ (List.mem_cons_of_mem _ hmem))]
      exact mode_valueFlag harg hset cli value
  | case5 cli arg value more hset ih =>
      simp only [parseArgsInto, hset]
      rw [ih fun hmem => h (List.mem_cons_of_mem _ hmem)]
      exact mode_flag cli arg

theorem mode_parseArgsFrom {name : String} {more : List String} (h : "--mode" ∉ more) :
    (parseArgsFrom ("--mode" :: name :: more)).mode = some name :=
  mode_parseArgsInto { Cli.default with mode := some name } h

/-! ## The next run -/

/-- A line of status. -/
def isStatus : Effect → Bool
  | .logStatus _ => true
  | _ => false

/-- After these answers, and whatever lines of status between them, the run comes to the
effect. -/
def GoesOnTo (args : List String) (answers : DaemonTranscript) (e : Effect) : Prop :=
  ∃ t k, t.filter (fun event => ! isStatus event.op) = answers ∧
    After (run args).run t (.perform e k)

/-- One effect further. -/
theorem after_effect (e : Effect) (r : Answer e) {k : Answer e → Prog Effect Answer α}
    {t : DaemonTranscript} {y : Prog Effect Answer α} (h : After (k r) t y) :
    After (.perform e k) (⟨e, r⟩ :: t) y := .answer r h

/-- A run that finds the configuration saves it again, joins the room and serves over HTTP;
and all it does goes by the configuration. -/
structure Rejoins (args : List String) (saved : AppConfig) (mode : AccessMode) (url room : String)
    (port : UInt16) : Prop where
  saves : GoesOnTo args [⟨.loadConfig, .ok saved⟩] (.saveConfig saved)
  joins : GoesOnTo args [⟨.loadConfig, .ok saved⟩, ⟨.saveConfig saved, .ok ()⟩]
    (.startP2P false mode url room)
  serves : ∀ bearer, GoesOnTo args [⟨.loadConfig, .ok saved⟩, ⟨.saveConfig saved, .ok ()⟩,
    ⟨.startP2P false mode url room, ()⟩, ⟨.loadOrCreateHttpBearer, .ok bearer⟩]
    (.runHttp false mode port bearer)
  only : ∀ t rest, After (run args).run (⟨.loadConfig, .ok saved⟩ :: t) rest →
    ∀ event ∈ t, GoesBy true saved event.op

/-- A run that finds the configuration saves it again and serves over HTTP, without joining
a room. -/
structure ServesAgain (args : List String) (saved : AppConfig) (mode : AccessMode)
    (port : UInt16) : Prop where
  saves : GoesOnTo args [⟨.loadConfig, .ok saved⟩] (.saveConfig saved)
  serves : ∀ bearer, GoesOnTo args [⟨.loadConfig, .ok saved⟩, ⟨.saveConfig saved, .ok ()⟩,
    ⟨.loadOrCreateHttpBearer, .ok bearer⟩] (.runHttp false mode port bearer)
  only : ∀ t rest, After (run args).run (⟨.loadConfig, .ok saved⟩ :: t) rest →
    ∀ event ∈ t, GoesBy false saved event.op

/-- The arguments of a run that is to join the room again. -/
def p2pArgs : List String := ["--p2p"]

/-- Their command line. -/
def rejoin : Cli := { Cli.default with p2pRequested := true }

theorem parseArgsFrom_p2p : parseArgsFrom p2pArgs = rejoin := by
  simp [parseArgsFrom, p2pArgs, parseArgsInto, valueFlag, Cli.flag, rejoin]

section

variable {mode : AccessMode} {modeName url room : String} {port : UInt16}

/-- What was saved on joining a room leads to the same room again. -/
theorem start_p2p_again (hmode : AccessMode.parse modeName = some mode) :
    start rejoin ⟨some url, some room, some port, some modeName⟩ =
      serveP2P false mode modeName url room port :=
  @start_p2p _ _ _ url (some port) hmode rfl

/-- What was saved on serving over HTTP leads to the same port again. -/
theorem start_http_again {signalUrl room : Option String}
    (hmode : AccessMode.parse modeName = some mode) :
    start .default ⟨signalUrl, room, some port, some modeName⟩ =
      serveHttp false mode modeName ⟨signalUrl, room, some port, some modeName⟩ port :=
  start_http hmode rfl

/-- All effects of a run are those of what it does once it has loaded its configuration. -/
theorem goesBy_of_start {args : List String} {saved : AppConfig} {joins : Bool}
    (hwithin : (start (parseArgsFrom args) saved).run.Within (GoesBy joins saved))
    {t : DaemonTranscript} {rest : Prog Effect Answer (Except Failure Unit)}
    (h : After (run args).run (⟨.loadConfig, .ok saved⟩ :: t) rest) :
    ∀ event ∈ t, GoesBy joins saved event.op := by
  obtain ⟨t', ht, hrest⟩ := run_loaded h List.mem_cons_self
  obtain rfl := (List.cons.inj ht).2
  exact hrest.within hwithin

theorem rejoins (hmode : AccessMode.parse modeName = some mode) :
    Rejoins p2pArgs ⟨some url, some room, some port, some modeName⟩ mode url room port := by
  set saved : AppConfig := ⟨some url, some room, some port, some modeName⟩
  have hstart : start (parseArgsFrom p2pArgs) saved =
      serveP2P false mode modeName url room port := by
    rw [parseArgsFrom_p2p]
    exact start_p2p_again hmode
  have hload : After (run p2pArgs).run [⟨.loadConfig, .ok saved⟩]
      (serveP2P false mode modeName url room port).run := by
    rw [← hstart]
    exact after_load (by rw [parseArgsFrom_p2p]; decide) (by rw [parseArgsFrom_p2p]; decide) _
  have hsaved : After (run p2pArgs).run [⟨.loadConfig, .ok saved⟩, ⟨.saveConfig saved, .ok ()⟩] _ :=
    hload.trans (after_effect (.saveConfig saved) (.ok ()) (.here _))
  have hjoined : After (run p2pArgs).run ([⟨.loadConfig, .ok saved⟩, ⟨.saveConfig saved, .ok ()⟩] ++
      [⟨.startP2P false mode url room, ()⟩]) _ :=
    hsaved.trans (after_effect (.startP2P false mode url room) () (.here _))
  refine ⟨⟨_, _, rfl, hload⟩, ⟨_, _, rfl, hsaved⟩, ?_, ?_⟩
  · intro bearer
    refine ⟨_, _, ?_, hjoined.trans (after_effect (.logStatus _) () (after_effect (.logStatus _) ()
      (after_effect (.logStatus _) () (after_effect (.logStatus _) ()
        (after_effect .loadOrCreateHttpBearer (.ok bearer) (.here _))))))⟩
    rfl
  · intro t rest
    refine goesBy_of_start ?_
    rw [hstart]
    exact serveP2P_within _ _ _ _ (AccessMode.parse_eq_some_iff.1 hmode)

theorem servesAgain {signalUrl room : Option String}
    (hmode : AccessMode.parse modeName = some mode) :
    ServesAgain [] ⟨signalUrl, room, some port, some modeName⟩ mode port := by
  set saved : AppConfig := ⟨signalUrl, room, some port, some modeName⟩
  have hstart : start (parseArgsFrom []) saved = serveHttp false mode modeName saved port :=
    start_http_again hmode
  have hload : After (run []).run [⟨.loadConfig, .ok saved⟩]
      (serveHttp false mode modeName saved port).run := by
    rw [← hstart]
    exact after_load (by decide) (by decide) _
  refine ⟨⟨_, _, rfl, hload⟩, ?_, ?_⟩
  · intro bearer
    refine ⟨_, _, ?_, hload.trans (after_effect (.saveConfig saved) (.ok ())
      (after_effect (.logStatus _) ()
        (after_effect .loadOrCreateHttpBearer (.ok bearer) (.here _))))⟩
    rfl
  · intro t rest
    refine goesBy_of_start ?_
    rw [hstart]
    exact serveHttp_within _ _ _ (AccessMode.parse_eq_some_iff.1 hmode)

end

/-- **A run is taken up again by the next.**  Whatever the command line and the loaded
configuration are, and however far the run has come.  For the mode, the server, the room and
the port the command line goes before the file.  If the run is to join a room and has saved a
configuration, this holds what it goes by itself, with a generated code for a room that
nobody has named; and a run with `--p2p` that finds it saves the same again, in the same mode,
at the same server, in the same room and on the same port.  If it serves over HTTP without,
then a run without flags does so again in the same mode and on the same port, and the server
and the room that were loaded are kept.  And if it serves over its standard streams it saves
nothing. -/
theorem restart_reuses (args : List String) (loaded : AppConfig) (t : DaemonTranscript)
    (rest : Prog Effect Answer (Except Failure Unit)) (h : After (run args).run t rest)
    (hloaded : Loaded t loaded) :
    let cli := parseArgsFrom args
    let modeName := (cli.mode.or loaded.mode).getD "full"
    let httpPort := cli.httpPort.or loaded.httpPort
    (∀ name more, args = "--mode" :: name :: more → "--mode" ∉ more → modeName = name) ∧
    (cli.stdioRequested = false → (cli.p2pRequested = true ∨ cli.signalUrl.isSome = true) →
      ∀ saved, Saved t saved →
        let url := (cli.signalUrl.or loaded.signalUrl).getD "https://folkaround.undivisible.dev"
        let port := httpPort.getD 8080
        ∃ mode room, modeName = mode.asStr ∧
          (cli.room.or loaded.room = some room ∨
            (cli.room.or loaded.room = none ∧ ⟨.generatePairingCode, room⟩ ∈ t)) ∧
          saved = ⟨some url, some room, some port, some modeName⟩ ∧
          (∀ event ∈ t, event.op = .loadConfig ∨ event.op = .generatePairingCode ∨
            GoesBy true saved event.op) ∧
          Rejoins p2pArgs saved mode url room port) ∧
    (cli.stdioRequested = false → cli.p2pRequested = false → cli.signalUrl = none →
      ∀ port, httpPort = some port → ∀ saved, Saved t saved →
        ∃ mode, modeName = mode.asStr ∧
          saved = ⟨loaded.signalUrl, loaded.room, some port, some modeName⟩ ∧
          (∀ event ∈ t, event.op = .loadConfig ∨ GoesBy false saved event.op) ∧
          ServesAgain [] saved mode port) ∧
    (cli.stdioRequested = true ∨
        (cli.p2pRequested = false ∧ cli.signalUrl = none ∧ httpPort = none) →
      ∀ saved r, (⟨.saveConfig saved, r⟩ : Exchange Effect Answer) ∉ t) := by
  intro cli modeName httpPort
  obtain ⟨t', rfl, hstart⟩ := run_loaded h hloaded
  have hname : resolveMode cli loaded = modeName := resolveMode_eq cli loaded
  have htail : ∀ {saved r}, (⟨.saveConfig saved, r⟩ : Exchange Effect Answer) ∈
      (⟨.loadConfig, .ok loaded⟩ :: t' : DaemonTranscript) →
      (⟨.saveConfig saved, r⟩ : Exchange Effect Answer) ∈ t' := by
    intro saved r hsaved
    rcases List.mem_cons.1 hsaved with heq | hsaved
    · exact absurd (Exchange.mk.inj heq).1 (by simp)
    · exact hsaved
  refine ⟨?_, ?_, ?_, ?_⟩
  · rintro name more rfl hmore
    have hmode : cli.mode = some name := mode_parseArgsFrom hmore
    simp only [modeName, hmode, Option.some_or, Option.getD_some]
  · intro hstdio hp2p saved hsaved url port
    obtain ⟨mode, hmode⟩ := mode_of_saved hstart (htail hsaved)
    rw [start_p2p hmode (transport_p2p loaded hstdio hp2p)] at hstart
    rw [hname] at hmode hstart
    have hasStr := AccessMode.parse_eq_some_iff.1 hmode
    rcases after_resolveRoom hstart with rfl | ⟨room, before, after, rfl, hafter, hroom⟩
    · exact absurd (htail hsaved) List.not_mem_nil
    have hgoes := hafter.within (serveP2P_within _ _ _ _ hasStr)
    have hbefore : ∀ event ∈ before, event.op = .generatePairingCode := by
      rcases hroom with ⟨rfl, -⟩ | ⟨rfl, -⟩
      · exact fun _ hevent => absurd hevent List.not_mem_nil
      · intro event hevent
        rw [List.mem_singleton.1 hevent]
    have hsame : saved = ⟨some url, some room, some port, some modeName⟩ := by
      rcases List.mem_append.1 (htail hsaved) with hevent | hevent
      · exact absurd (hbefore _ hevent) (by simp)
      · exact hgoes _ hevent
    refine ⟨mode, room, hasStr, ?_, hsame, ?_, hsame ▸ rejoins hmode⟩
    · rcases hroom with ⟨-, hknown⟩ | ⟨rfl, hnone⟩
      · exact .inl hknown
      · exact .inr ⟨hnone, List.mem_cons_of_mem _ (by simp)⟩
    · rw [hsame]
      intro event hevent
      rcases List.mem_cons.1 hevent with rfl | hevent
      · exact .inl rfl
      · rcases List.mem_append.1 hevent with hevent | hevent
        · exact .inr (.inl (hbefore event hevent))
        · exact .inr (.inr (hgoes event hevent))
  · intro hstdio hp2p hurl port hport saved hsaved
    obtain ⟨mode, hmode⟩ := mode_of_saved hstart (htail hsaved)
    have htransport : transport cli loaded = (none, some port) := by
      rw [transport_local loaded hstdio hp2p hurl, ← hport]
    rw [start_http hmode htransport] at hstart
    rw [hname] at hmode hstart
    have hasStr := AccessMode.parse_eq_some_iff.1 hmode
    have hgoes := hstart.within (serveHttp_within _ _ _ hasStr)
    have hsame : saved = ⟨loaded.signalUrl, loaded.room, some port, some modeName⟩ :=
      hgoes _ (htail hsaved)
    refine ⟨mode, hasStr, hsame, ?_, hsame ▸ servesAgain hmode⟩
    rw [hsame]
    intro event hevent
    rcases List.mem_cons.1 hevent with rfl | hevent
    · exact .inl rfl
    · exact .inr (hgoes event hevent)
  · intro hlocal saved r hsaved
    obtain ⟨mode, hmode⟩ := mode_of_saved hstart (htail hsaved)
    have htransport : transport cli loaded = (none, none) := by
      by_cases hstdio : cli.stdioRequested = true
      · exact transport_stdio loaded hstdio
      · obtain ⟨hp2p, hurl, hport⟩ := hlocal.resolve_left hstdio
        rw [transport_local loaded (Bool.eq_false_iff.2 hstdio) hp2p hurl, ← hport]
    rw [start_stdio hmode htransport] at hstart
    exact not_saved hstart (within_serveStdio (fun _ => trivial) trivial) r (htail hsaved)

/-- A configuration without a port. -/
def denConfig : AppConfig := ⟨some "https://signal", some "den", none, some "full"⟩

/-- In another mode than the file has. -/
def sandboxArgs : List String := ["--mode", "sandbox", "--p2p"]

/-- A run in sandbox mode that joins the room of this configuration is taken up again in
sandbox mode. -/
theorem restart_reuses_den :
    Rejoins p2pArgs ⟨some "https://signal", some "den", some 8080, some "sandbox"⟩ .sandbox
      "https://signal" "den" 8080 := by
  let cli : Cli := { rejoin with mode := some "sandbox" }
  have hcli : parseArgsFrom sandboxArgs = cli := by
    simp [parseArgsFrom, sandboxArgs, parseArgsInto, valueFlag, Cli.flag, cli, rejoin]
  have hload := @after_load sandboxArgs (by rw [hcli]; decide) (by rw [hcli]; decide) denConfig
  have hserve : start (parseArgsFrom sandboxArgs) denConfig =
      serveP2P false .sandbox "sandbox" "https://signal" "den" 8080 := by
    rw [hcli]
    exact @start_p2p cli denConfig .sandbox "https://signal" none rfl rfl
  rw [hserve] at hload
  have hsave := hload.trans
    (after_effect (.saveConfig ⟨some "https://signal", some "den", some 8080, some "sandbox"⟩)
      (.ok ()) (.here _))
  have hrestart := (restart_reuses sandboxArgs denConfig _ _ hsave (by simp [Loaded])).2.1
  rw [hcli] at hrestart
  obtain ⟨mode, room, hmode, hroom, -, -, hagain⟩ :=
    hrestart rfl (.inl rfl) _ (List.mem_append_right _ (List.mem_singleton_self _))
  obtain rfl : room = "den" := by
    rcases hroom with hroom | ⟨hnone, -⟩
    · exact (Option.some.inj hroom).symm
    · exact absurd hnone (by decide)
  obtain rfl : mode = .sandbox := by
    cases mode with
    | sandbox => rfl
    | full => exact absurd hmode (by decide)
    | limited => exact absurd hmode (by decide)
  exact hagain

end Daemon
end FolkAround
