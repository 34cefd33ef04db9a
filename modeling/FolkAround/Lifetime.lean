import FolkAround.OnDisk
import FolkAround.Restart

/-!
# The daemon over its lifetime

The daemon is started and stopped again and again on one home directory.  What it keeps there
is a file; what it means by it are its settings.

* `settle` — what the settings become when the daemon is started.
* `Serves`, `SettlesOn` — what a start does by the settings it has settled on.
* `SettingsStep` — what a session makes of the settings.
* `settings_survive` — over any number of sessions, the file holds what they have made of the
  settings.
-/

namespace FolkAround
namespace Daemon

open Effects Effects.World
open FolkAround.Core (AppConfig Disk answers configPathIn configText)

variable {home : String} {unix : Bool} {disk disk' : Disk} {settings : AppConfig}

/-! ## What the settings become -/

/-- The server and the room of the command line are plain. -/
structure Tidy (cli : Cli) : Prop where
  signalUrl : ∀ url, cli.signalUrl = some url → Core.Plain url.toList
  room : ∀ room, cli.room = some room → Core.Plain room.toList

/-- What the settings become, if the daemon serves over the network: the command line goes
before what was there, and a room that neither of them knows gets a new code. -/
def settle (cli : Cli) (settings : AppConfig) (code : String) : Option AppConfig :=
  let modeName := (cli.mode.or settings.mode).getD "full"
  let port := cli.httpPort.or settings.httpPort
  if cli.stdioRequested ∨ modeName ∉ ["full", "limited", "sandbox"] then none
  else if cli.p2pRequested ∨ cli.signalUrl.isSome then
    some ⟨some ((cli.signalUrl.or settings.signalUrl).getD "https://folkaround.undivisible.dev"),
      some ((cli.room.or settings.room).getD code), some (port.getD 8080), some modeName⟩
  else port.map fun port => ⟨settings.signalUrl, settings.room, some port, some modeName⟩

/-- The settings of a start that joins a room, or serves over HTTP without, or does neither. -/
theorem settle_cases {cli : Cli} {code : String} {config : AppConfig}
    (h : settle cli settings code = some config) :
    (∃ mode : AccessMode, config.mode = some mode.asStr) ∧
      ((config.signalUrl = some ((cli.signalUrl.or settings.signalUrl).getD defaultSignalUrl) ∧
          config.room = some ((cli.room.or settings.room).getD code)) ∨
        (config.signalUrl = settings.signalUrl ∧ config.room = settings.room)) := by
  unfold settle at h
  extract_lets modeName port at h
  split at h
  · cases h
  · next hlocal =>
      obtain ⟨-, hname⟩ := not_or.1 hlocal
      rw [not_not] at hname
      have hmode : ∃ mode : AccessMode, some modeName = some mode.asStr := by
        simp only [List.mem_cons, List.not_mem_nil, or_false] at hname
        rcases hname with hname | hname | hname
        · exact ⟨.full, congrArg some hname⟩
        · exact ⟨.limited, congrArg some hname⟩
        · exact ⟨.sandbox, congrArg some hname⟩
      split at h
      · obtain rfl := Option.some.inj h
        exact ⟨hmode, .inl ⟨rfl, rfl⟩⟩
      · obtain ⟨port, -, rfl⟩ := Option.map_eq_some_iff.1 h
        exact ⟨hmode, .inr ⟨rfl, rfl⟩⟩

theorem mem_names_of_parse {name : String} {mode : AccessMode}
    (h : AccessMode.parse name = some mode) : name ∈ ["full", "limited", "sandbox"] := by
  rw [AccessMode.parse_eq_some_iff.1 h]
  cases mode with
  | full => decide
  | limited => decide
  | sandbox => decide

theorem plain_asStr (mode : AccessMode) : Core.Plain mode.asStr.toList := by
  cases mode with
  | full => exact ⟨by decide, by decide, by decide +kernel⟩
  | limited => exact ⟨by decide, by decide, by decide +kernel⟩
  | sandbox => exact ⟨by decide, by decide, by decide +kernel⟩

theorem plain_defaultSignalUrl : Core.Plain defaultSignalUrl.toList :=
  ⟨by decide, by decide, by decide +kernel⟩

/-- The server is one of the command line, the settings or the program. -/
theorem plain_signalUrl {cli : Cli} (hcli : Tidy cli) (hsettings : Core.Storable settings) :
    Core.Plain ((cli.signalUrl.or settings.signalUrl).getD defaultSignalUrl).toList := by
  cases hurl : cli.signalUrl with
  | some url => exact hcli.signalUrl url hurl
  | none =>
      cases hsaved : settings.signalUrl with
      | some url => exact hsettings.signalUrl url hsaved
      | none => exact plain_defaultSignalUrl

theorem plain_room {cli : Cli} {code : String} (hcli : Tidy cli) (hsettings : Core.Storable settings)
    (hcode : Core.Plain code.toList) : Core.Plain ((cli.room.or settings.room).getD code).toList := by
  cases hroom : cli.room with
  | some room => exact hcli.room room hroom
  | none =>
      cases hsaved : settings.room with
      | some room => exact hsettings.room room hsaved
      | none => exact hcode

theorem storable_settle {cli : Cli} {code : String} {settings' : AppConfig} (hcli : Tidy cli)
    (hsettings : Core.Storable settings) (hcode : Core.Plain code.toList)
    (h : settle cli settings code = some settings') : Core.Storable settings' := by
  obtain ⟨⟨mode, hmode⟩, hcases⟩ := settle_cases h
  have hname : ∀ name, settings'.mode = some name → Core.Plain name.toList := by
    rw [hmode]
    rintro _ ⟨⟩
    exact plain_asStr mode
  rcases hcases with ⟨hurl, hroom⟩ | ⟨hurl, hroom⟩
  · refine ⟨?_, ?_, hname⟩
    · rw [hurl]
      rintro _ ⟨⟩
      exact plain_signalUrl hcli hsettings
    · rw [hroom]
      rintro _ ⟨⟩
      exact plain_room hcli hsettings hcode
  · refine ⟨?_, ?_, hname⟩
    · rw [hurl]
      exact hsettings.signalUrl
    · rw [hroom]
      exact hsettings.room

/-! ## Serving -/

/-- An effect of a part that neither loads nor saves, and that goes by the settings if it
serves over the network. -/
def Serves (settings : Option AppConfig) : Effect → Prop
  | .loadConfig | .saveConfig _ => False
  | .startP2P _ mode url room => ∃ config, settings = some config ∧ config.signalUrl = some url ∧
      config.room = some room ∧ config.mode = some mode.asStr
  | .runHttp _ mode port _ => ∃ config, settings = some config ∧ config.httpPort = some port ∧
      config.mode = some mode.asStr
  | _ => True

/-- No save fails, or is cut short. -/
def Saving (t : DaemonTranscript) : Prop := ∀ config err, ⟨.saveConfig config, .error err⟩ ∉ t

/-- The settings are saved first, and what follows goes by them. -/
def Settles (config : AppConfig) (t : DaemonTranscript) : Prop :=
  t = [] ∨ ∃ after, t = ⟨.saveConfig config, .ok ()⟩ :: after ∧
    ∀ event ∈ after, Serves (some config) event.op

theorem settles_of_after {config : AppConfig} {f : Exec Unit} {t : DaemonTranscript}
    {rest : Prog Effect Answer _} (h : After (saveConfig config >>= fun _ => f).run t rest)
    (hsaving : Saving t) (hf : f.run.Within (Serves (some config))) : Settles config t := by
  rcases after_perform_iff.1 h with ⟨rfl, -⟩ | ⟨r, t', rfl, hrest⟩
  · exact .inl rfl
  · cases r with
    | ok value =>
        have hrest : After f.run t' rest := hrest
        exact .inr ⟨t', rfl, hrest.within hf⟩
    | error err => exact absurd List.mem_cons_self (hsaving config err)

section

variable {verbose : Bool} {mode : AccessMode} {modeName url room : String} {port : UInt16}
  {t : DaemonTranscript} {rest : Prog Effect Answer (Except Failure Unit)}

theorem settles_p2p (hmode : modeName = mode.asStr)
    (h : After (serveP2P verbose mode modeName url room port).run t rest) (hsaving : Saving t) :
    Settles ⟨some url, some room, some port, some modeName⟩ t := by
  refine settles_of_after h hsaving ?_
  refine Prog.within_except_bind (within_logVerbose (fun _ => trivial) _ _) fun _ => ?_
  refine Prog.within_except_bind (within_perform (.startP2P verbose mode url room)
    ⟨_, rfl, rfl, rfl, congrArg some hmode⟩) fun _ => ?_
  refine Prog.within_except_bind (within_printPairingInstructions (fun _ => trivial) _ _ _)
    fun _ => ?_
  exact within_runHttp trivial fun _ => ⟨_, rfl, rfl, congrArg some hmode⟩

theorem settles_http {saved : AppConfig} (hmode : modeName = mode.asStr)
    (h : After (serveHttp verbose mode modeName saved port).run t rest) (hsaving : Saving t) :
    Settles ⟨saved.signalUrl, saved.room, some port, some modeName⟩ t := by
  refine settles_of_after h hsaving ?_
  refine Prog.within_except_bind (within_perform (.logStatus _) trivial) fun _ => ?_
  exact within_runHttp trivial fun _ => ⟨_, rfl, rfl, congrArg some hmode⟩

end

/-! ## One start -/

/-- New settings are settled on in the transcript; the code for them was drawn before, if it
matters. -/
structure SettlesOn (cli : Cli) (settings config : AppConfig) (before after t : DaemonTranscript) :
    Prop where
  parts : t = before ++ ⟨.saveConfig config, .ok ()⟩ :: after
  settled : (∀ code, settle cli settings code = some config) ∨
    ∃ code, ⟨.generatePairingCode, code⟩ ∈ before ∧ settle cli settings code = some config
  idle : ∀ event ∈ before, Serves none event.op
  serves : ∀ event ∈ after, Serves (some config) event.op

section

variable {cli : Cli} {mode : AccessMode} {t : DaemonTranscript}
  {rest : Prog Effect Answer (Except Failure Unit)}

theorem settle_p2p {code : String}
    (hmode : AccessMode.parse (resolveMode cli settings) = some mode)
    (hstdio : cli.stdioRequested = false)
    (hp2p : cli.p2pRequested = true ∨ cli.signalUrl.isSome = true) :
    settle cli settings code =
      some ⟨some ((cli.signalUrl.or settings.signalUrl).getD defaultSignalUrl),
        some ((cli.room.or settings.room).getD code),
        some ((cli.httpPort.or settings.httpPort).getD 8080), some (resolveMode cli settings)⟩ := by
  rw [resolveMode_eq] at hmode ⊢
  unfold settle
  extract_lets modeName port
  rw [if_neg, if_pos hp2p]
  · rfl
  · rw [not_or, not_not]
    exact ⟨by simp [hstdio], mem_names_of_parse hmode⟩

theorem settle_http {port : UInt16} {code : String}
    (hmode : AccessMode.parse (resolveMode cli settings) = some mode)
    (hstdio : cli.stdioRequested = false) (hp2p : cli.p2pRequested = false)
    (hurl : cli.signalUrl = none) (hport : cli.httpPort.or settings.httpPort = some port) :
    settle cli settings code =
      some ⟨settings.signalUrl, settings.room, some port, some (resolveMode cli settings)⟩ := by
  rw [resolveMode_eq] at hmode ⊢
  unfold settle
  extract_lets modeName port'
  rw [if_neg, if_neg (by simp [hp2p, hurl])]
  · exact Option.map_eq_some_iff.2 ⟨port, hport, rfl⟩
  · rw [not_or, not_not]
    exact ⟨by simp [hstdio], mem_names_of_parse hmode⟩

/-- A room is at hand, or a code is drawn for one. -/
theorem start_settles_p2p (hmode : AccessMode.parse (resolveMode cli settings) = some mode)
    (hstdio : cli.stdioRequested = false)
    (hp2p : cli.p2pRequested = true ∨ cli.signalUrl.isSome = true)
    (h : After (start cli settings).run t rest) (hsaving : Saving t) :
    (∀ event ∈ t, Serves none event.op) ∨
      ∃ config before after, SettlesOn cli settings config before after t := by
  rw [start_p2p hmode (transport_p2p settings hstdio hp2p)] at h
  have hname := AccessMode.parse_eq_some_iff.1 hmode
  have hsettle (code : String) := @settle_p2p settings cli mode code hmode hstdio hp2p
  rcases after_resolveRoom h with rfl | ⟨room, before, after, rfl, hafter, hroom⟩
  · exact .inl fun _ hevent => absurd hevent List.not_mem_nil
  have hsaving' : Saving after := fun config err hevent =>
    hsaving config err (List.mem_append_right _ hevent)
  have hidle : ∀ event ∈ before, Serves none event.op := by
    rcases hroom with ⟨rfl, -⟩ | ⟨rfl, -⟩
    · exact fun _ hevent => absurd hevent List.not_mem_nil
    · intro event hevent
      rw [List.mem_singleton.1 hevent]
      trivial
  rcases settles_p2p hname hafter hsaving' with rfl | ⟨served, rfl, hserved⟩
  · rw [List.append_nil]
    exact .inl hidle
  · refine .inr ⟨_, before, served, rfl, ?_, hidle, hserved⟩
    rcases hroom with ⟨-, hknown⟩ | ⟨rfl, hnone⟩
    · refine .inl fun code => ?_
      rw [hsettle, hknown, Option.getD_some]
    · refine .inr ⟨room, List.mem_singleton_self _, ?_⟩
      rw [hsettle, hnone, Option.getD_none]

/-- A start that has read its settings either has not come to serve over the network, or it
has settled on new ones before. -/
theorem start_settles (h : After (start cli settings).run t rest) (hsaving : Saving t) :
    (∀ event ∈ t, Serves none event.op) ∨
      ∃ config before after, SettlesOn cli settings config before after t := by
  cases hmode : AccessMode.parse (resolveMode cli settings) with
  | none => exact .inl (h.within (within_start_of_no_mode (fun _ => trivial) hmode))
  | some mode =>
      have hidle (htransport : transport cli settings = (none, none)) :
          ∀ event ∈ t, Serves none event.op := by
        rw [start_stdio hmode htransport] at h
        exact h.within (within_serveStdio (fun _ => trivial) trivial)
      by_cases hstdio : cli.stdioRequested = true
      · exact .inl (hidle (transport_stdio settings hstdio))
      rw [Bool.not_eq_true] at hstdio
      by_cases hp2p : cli.p2pRequested = true ∨ cli.signalUrl.isSome = true
      · exact start_settles_p2p hmode hstdio hp2p h hsaving
      obtain ⟨hrequested, hurl⟩ := not_or.1 hp2p
      rw [Bool.not_eq_true] at hrequested
      rw [Option.not_isSome_iff_eq_none] at hurl
      have htransport := transport_local settings hstdio hrequested hurl
      cases hport : cli.httpPort.or settings.httpPort with
      | none => exact .inl (hidle (hport ▸ htransport))
      | some port =>
          rw [hport] at htransport
          rw [start_http hmode htransport] at h
          have hsettle (code : String) :=
            @settle_http settings cli mode port code hmode hstdio hrequested hurl hport
          rcases settles_http (AccessMode.parse_eq_some_iff.1 hmode) h hsaving with
            rfl | ⟨after, rfl, hafter⟩
          · exact .inl fun _ hevent => absurd hevent List.not_mem_nil
          · exact .inr ⟨_, [], after, rfl, .inl hsettle,
              fun _ hevent => absurd hevent List.not_mem_nil, hafter⟩

end

/-! ## A lifetime -/

/-- The daemon is started with these arguments, and stopped after some of its effects. -/
abbrev Session := Start fun args => (run args).run

/-- Before any settings are settled on, what is loaded are the ones that are there. -/
structure Idle (settings : AppConfig) (event : Exchange Effect Answer) : Prop where
  loads : ∀ config, event = ⟨.loadConfig, .ok config⟩ → config = settings
  serves : event.op = .loadConfig ∨ Serves none event.op

/-- What a session makes of the settings. -/
inductive SettingsStep (x : Session) (settings : AppConfig) : AppConfig → Prop where
  /-- It has saved nothing, and does not serve over the network. -/
  | idle : (∀ event ∈ x.transcript, Idle settings event) → SettingsStep x settings settings
  /-- It has settled on new ones, and serves by them since. -/
  | settled {settings' : AppConfig} {n : UInt64} {before after : DaemonTranscript} :
      x.transcript = before ++ ⟨.saveConfig settings', .ok ()⟩ :: after →
      (∀ event ∈ before, Idle settings event) →
      settle (parseArgsFrom x.input) settings (pairingCode n) = some settings' →
      (∀ event ∈ after, Serves (some settings') event.op) → SettingsStep x settings settings'

theorem idle_of_serves {event : Exchange Effect Answer} (h : Serves none event.op) :
    Idle settings event := by
  refine ⟨?_, .inr h⟩
  rintro config rfl
  exact absurd h id

theorem not_save_of_serves {config : Option AppConfig} {e : Effect} (h : Serves config e) :
    ∀ saved, e ≠ .saveConfig saved := by
  rintro saved rfl
  exact h

theorem not_save_of_idle {event : Exchange Effect Answer} (h : Idle settings event) :
    ∀ saved, event.op ≠ .saveConfig saved := by
  rcases h.serves with hload | hserves
  · rw [hload]
    rintro saved ⟨⟩
  · exact not_save_of_serves hserves

/-- Without a save the file stays as it is. -/
theorem traces_holds {t : DaemonTranscript} (ht : ∀ event ∈ t, ∀ saved, event.op ≠ .saveConfig saved)
    (h : Traces (onDisk (some home) unix) disk t disk') :
    Holds home disk' settings ↔ Holds home disk settings :=
  holds_congr (traces_keep (fun disk : Disk => disk (configPathIn home)) onDisk_keeps ht h)

/-- A run that has loaded no settings has come to nothing. -/
theorem run_idle {args : List String} {t : DaemonTranscript} {rest : Prog Effect Answer _}
    (h : After (run args).run t rest) (hloaded : ∀ config, ¬ Loaded t config) :
    ∀ event ∈ t, Idle settings event := by
  have hloads : ∀ event ∈ t, ∀ config, event = ⟨.loadConfig, .ok config⟩ → config = settings := by
    rintro event hevent config rfl
    exact absurd hevent (hloaded config)
  unfold run at h
  extract_lets cli at h
  split at h
  · have hserves : ∀ event ∈ t, Serves none event.op := h.within (within_perform .printHelp trivial)
    exact fun event hevent => ⟨hloads event hevent, .inr (hserves event hevent)⟩
  · split at h
    · have hserves : ∀ event ∈ t, Serves none event.op :=
        h.within (within_perform .printVersion trivial)
      exact fun event hevent => ⟨hloads event hevent, .inr (hserves event hevent)⟩
    · rcases after_perform_iff.1 h with ⟨rfl, -⟩ | ⟨r, t', rfl, hrest⟩
      · exact fun _ hevent => absurd hevent List.not_mem_nil
      · cases r with
        | ok config => exact absurd List.mem_cons_self (hloaded config)
        | error err =>
            cases hrest
            intro event hevent
            refine ⟨hloads event hevent, .inl ?_⟩
            rw [List.mem_singleton.1 hevent]

/-- A start that is settling, on a disk that holds the settings. -/
theorem settlesOn_holds {cli : Cli} {config : AppConfig} {before after t : DaemonTranscript}
    (hcli : Tidy cli) (hholds : Holds home disk settings)
    (h : SettlesOn cli settings config before after t)
    (ht : Traces (onDisk (some home) unix) disk t disk') :
    (∃ n, settle cli settings (pairingCode n) = some config) ∧ Holds home disk' config := by
  obtain ⟨rfl, hsettled, hidle, hserves⟩ := h
  obtain ⟨disk₁, hbefore, hlater⟩ := traces_append_iff.1 ht
  obtain ⟨disk₂, hsave, hafter⟩ := traces_cons_iff.1 hlater
  have hcode : ∃ n, settle cli settings (pairingCode n) = some config := by
    rcases hsettled with hall | ⟨code, hdrawn, hsettle⟩
    · exact ⟨0, hall _⟩
    · obtain ⟨_, _, -, n, rfl⟩ := traces_mem hbefore _ hdrawn
      exact ⟨n, hsettle⟩
  obtain ⟨n, hsettle⟩ := hcode
  have hstorable := storable_settle hcli hholds.storable (plain_pairingCode n) hsettle
  refine ⟨⟨n, hsettle⟩, ?_⟩
  rw [traces_holds (fun event hevent => not_save_of_serves (hserves event hevent)) hafter]
  exact holds_of_saved hstorable hsave

/-- One session. -/
theorem session_settles {x : Session} (hcli : Tidy (parseArgsFrom x.input))
    (hsaving : Saving x.transcript) (hholds : Holds home disk settings)
    (h : Traces (onDisk (some home) unix) disk x.transcript disk') :
    ∃ settings', SettingsStep x settings settings' ∧ Holds home disk' settings' := by
  by_cases hloaded : ∃ config, Loaded x.transcript config
  · obtain ⟨config, hloaded⟩ := hloaded
    obtain ⟨t, ht, hstart⟩ := run_loaded x.after hloaded
    rw [ht] at h
    obtain ⟨disk₁, hload, hrest⟩ := traces_cons_iff.1 h
    obtain rfl := loaded_of_holds hholds hload
    have hfirst : Idle config ⟨.loadConfig, .ok config⟩ := by
      refine ⟨?_, .inl rfl⟩
      rintro _ ⟨⟩
      rfl
    have hholds₁ : Holds home disk₁ config :=
      (holds_congr (onDisk_keeps _ _ _ (not_save_of_idle hfirst) hload)).2 hholds
    have hsaving' : Saving t := by
      intro saved err hevent
      refine hsaving saved err ?_
      rw [ht]
      exact List.mem_cons_of_mem _ hevent
    rcases start_settles hstart hsaving' with hserves | ⟨config', before, after, hsettles⟩
    · refine ⟨config, .idle ?_, ?_⟩
      · rw [ht]
        intro event hevent
        rcases List.mem_cons.1 hevent with rfl | hevent
        · exact hfirst
        · exact idle_of_serves (hserves event hevent)
      · exact (traces_holds (fun event hevent => not_save_of_serves (hserves event hevent)) hrest).2
          hholds₁
    · obtain ⟨⟨n, hsettle⟩, hholds'⟩ := settlesOn_holds hcli hholds₁ hsettles hrest
      have hparts : x.transcript =
          (⟨.loadConfig, .ok config⟩ :: before) ++ ⟨.saveConfig config', .ok ()⟩ :: after := by
        rw [ht, hsettles.parts]
        rfl
      refine ⟨config', .settled hparts ?_ hsettle hsettles.serves, hholds'⟩
      intro event hevent
      rcases List.mem_cons.1 hevent with rfl | hevent
      · exact hfirst
      · exact idle_of_serves (hsettles.idle event hevent)
  · have hidle : ∀ event ∈ x.transcript, Idle settings event :=
      run_idle x.after fun config h => hloaded ⟨config, h⟩
    refine ⟨settings, .idle hidle, ?_⟩
    exact (traces_holds (fun event hevent => not_save_of_idle (hidle event hevent)) h).2 hholds

/-! ## The room -/

/-- The session joins no other room. -/
def Joins (room : String) (x : Session) : Prop :=
  ∀ event ∈ x.transcript, ∀ verbose mode url joined,
    event.op = .startP2P verbose mode url joined → joined = room

theorem room_of_settle {cli : Cli} {code room : String} {config : AppConfig} (hcli : cli.room = none)
    (hroom : settings.room = some room) (h : settle cli settings code = some config) :
    config.room = some room := by
  rcases (settle_cases h).2 with ⟨-, hjoined⟩ | ⟨-, hkept⟩
  · rw [hjoined, hcli, hroom, Option.none_or, Option.getD_some]
  · rw [hkept, hroom]

/-- A session without a room of its own joins the one of the settings, and keeps it. -/
theorem step_joins {x : Session} {settings' : AppConfig} {room : String}
    (hcli : (parseArgsFrom x.input).room = none) (hroom : settings.room = some room)
    (h : SettingsStep x settings settings') : settings'.room = some room ∧ Joins room x := by
  have hidle : ∀ event, Idle settings event → ∀ verbose mode url joined,
      event.op ≠ .startP2P verbose mode url joined := by
    intro event hevent verbose mode url joined hop
    rcases hevent.serves with hload | hserves
    · rw [hload] at hop
      cases hop
    · rw [hop] at hserves
      obtain ⟨_, hnone, -⟩ := hserves
      cases hnone
  cases h with
  | idle ht =>
      refine ⟨hroom, ?_⟩
      intro event hevent verbose mode url joined hop
      exact absurd hop (hidle event (ht event hevent) verbose mode url joined)
  | settled hparts hbefore hsettle hserves =>
      have hkept := room_of_settle hcli hroom hsettle
      refine ⟨hkept, ?_⟩
      intro event hevent verbose mode url joined hop
      rw [hparts] at hevent
      rcases List.mem_append.1 hevent with hevent | hevent
      · exact absurd hop (hidle event (hbefore event hevent) verbose mode url joined)
      · rcases List.mem_cons.1 hevent with rfl | hevent
        · cases hop
        · have hserve := hserves event hevent
          rw [hop] at hserve
          obtain ⟨config, hconfig, -, hjoined, -⟩ := hserve
          rw [← Option.some.inj hconfig, hkept] at hjoined
          exact (Option.some.inj hjoined).symm

/-- **The settings survive.**  The daemon is started any number of times in one home, with any
command lines whose texts are plain, and each time it is stopped after some of its effects; no
save fails or is cut short.  If the file holds the settings at first, it does so at the end: each
session loads the settings as the ones before have left them, and it serves over the network only
after it has saved the ones that it goes by, which follow from its command line.  So a room, once
it is there, stays the same until a command line names another one, and it is the only one that is
joined. -/
theorem settings_survive {starts : List Session}
    (hcli : ∀ x ∈ starts, Tidy (parseArgsFrom x.input)) (hsaving : ∀ x ∈ starts, Saving x.transcript)
    (hholds : Holds home disk settings)
    (h : Lifetime (onDisk (some home) unix) (fun args => (run args).run) disk starts disk') :
    ∃ settings', Chain SettingsStep settings starts settings' ∧ Holds home disk' settings' ∧
      ∀ room, settings.room = some room → (∀ x ∈ starts, (parseArgsFrom x.input).room = none) →
        settings'.room = some room ∧ ∀ x ∈ starts, Joins room x := by
  have hsession : ∀ (x : Session) (disk disk' : Disk) (settings : AppConfig),
      Tidy (parseArgsFrom x.input) ∧ Saving x.transcript → Holds home disk settings →
      Traces (onDisk (some home) unix) disk x.transcript disk' →
      ∃ settings', SettingsStep x settings settings' ∧ Holds home disk' settings' :=
    fun x _ _ _ hx hholds ht => session_settles hx.1 hx.2 hholds ht
  obtain ⟨settings', hchain, hholds'⟩ :=
    Chain.refines hsession (fun x hx => ⟨hcli x hx, hsaving x hx⟩) hholds h
  refine ⟨settings', hchain, hholds', ?_⟩
  intro room hroom hrooms
  have hstep : ∀ (x : Session) (s s' : AppConfig), (parseArgsFrom x.input).room = none →
      s.room = some room → SettingsStep x s s' → s'.room = some room ∧ Joins room x :=
    fun x _ _ hx hroom hstep => step_joins hx hroom hstep
  exact Chain.invariant hstep hrooms hroom hchain

/-! ## Two starts -/

/-- A session that comes as far as saving. -/
theorem exists_session {args : List String} {config config' : AppConfig} {f : Exec Unit}
    (hhelp : (parseArgsFrom args).help ≠ true) (hversion : (parseArgsFrom args).version ≠ true)
    (hstart : start (parseArgsFrom args) config = saveConfig config' >>= fun _ => f) :
    ∃ x : Session, x.input = args ∧
      x.transcript = [⟨.loadConfig, .ok config⟩, ⟨.saveConfig config', .ok ()⟩] := by
  have hload := after_load hhelp hversion config
  rw [hstart] at hload
  have hsave : After (saveConfig config' >>= fun _ => f).run [⟨.saveConfig config', .ok ()⟩] f.run :=
    After.answer (R := Answer) (e := .saveConfig config') (.ok ()) (.here _)
  exact ⟨⟨args, _, _, hload.trans hsave⟩, rfl, rfl⟩

theorem saving_again {x : Session} {config config' : AppConfig}
    (hx : x.transcript = [⟨.loadConfig, .ok config⟩, ⟨.saveConfig config', .ok ()⟩]) :
    Saving x.transcript := by
  intro saved err hevent
  rw [hx] at hevent
  rcases List.mem_cons.1 hevent with heq | hevent
  · cases heq
  · cases List.mem_singleton.1 hevent

theorem exists_traces {x : Session} {config config' : AppConfig}
    (hx : x.transcript = [⟨.loadConfig, .ok config⟩, ⟨.saveConfig config', .ok ()⟩])
    (hconfig : Core.Storable config)
    (hfile : disk (configPathIn home) = some ⟨true, Utf8.encode (configText config)⟩) :
    ∃ disk', Traces (onDisk (some home) true) disk x.transcript disk' ∧
      disk' (configPathIn home) = some ⟨true, Utf8.encode (configText config')⟩ := by
  have hload : Finishes (answers (some home)) Core.loadConfig.run disk (.ok config) disk := by
    refine ((Core.loadConfig_working hfile rfl ..).2 ⟨?_, rfl⟩).of_restrict
    rw [Core.parseConfig_configText hconfig]
  have hsave := Core.saveConfig_finishes home true config' disk
  rw [hx]
  exact ⟨_, traces_cons_iff.2 ⟨disk, hload, traces_cons_iff.2 ⟨_, hsave, .nil _⟩⟩,
    Function.update_self ..⟩

/-- A device that is in the room `abc` is started with another port, and then joins again. -/
theorem settings_survive_abc :
    ∃ (starts : List Session) (disk' : Disk) (settings' : AppConfig),
      starts.map Start.input = [["--http", "9000"], p2pArgs] ∧
      Lifetime (onDisk (some "/home/me") true) (fun args => (run args).run)
        (Core.pairedDisk "abc") starts disk' ∧
      Holds "/home/me" disk' settings' ∧ settings'.room = some "abc" ∧
      ∀ x ∈ starts, Joins "abc" x := by
  have hport : parsePort "9000" = some 9000 := by decide +kernel
  have hhttp : parseArgsFrom ["--http", "9000"] = { Cli.default with httpPort := some 9000 } := by
    simp [parseArgsFrom, parseArgsInto, valueFlag, hport]
  have hp2p : parseArgsFrom p2pArgs = rejoin := parseArgsFrom_p2p
  let config : AppConfig := ⟨some defaultSignalUrl, some "abc", some 9000, some "full"⟩
  have hstorable : Core.Storable (Core.pairedConfig "abc") :=
    (Core.storable_pairedConfig_iff "abc").2 ⟨by decide, by decide, by decide +kernel⟩
  have hstorable' : Core.Storable config := ⟨hstorable.signalUrl, hstorable.room, hstorable.mode⟩
  have hserve : start (parseArgsFrom ["--http", "9000"]) (Core.pairedConfig "abc") =
      serveHttp false .full "full" (Core.pairedConfig "abc") 9000 := by
    rw [hhttp]
    exact start_http rfl rfl
  have hjoin : start (parseArgsFrom p2pArgs) config =
      serveP2P false .full "full" defaultSignalUrl "abc" 9000 := by
    rw [hp2p]
    exact start_p2p_again rfl
  obtain ⟨first, hfirst, hfirst'⟩ :=
    exists_session (by rw [hhttp]; decide) (by rw [hhttp]; decide) hserve
  obtain ⟨second, hsecond, hsecond'⟩ :=
    exists_session (by rw [hp2p]; decide) (by rw [hp2p]; decide) hjoin
  have hfile : Core.pairedDisk "abc" (configPathIn "/home/me") =
      some ⟨true, Utf8.encode (configText (Core.pairedConfig "abc"))⟩ := Function.update_self ..
  have hholds : Holds "/home/me" (Core.pairedDisk "abc") (Core.pairedConfig "abc") :=
    (holds_some hfile).2 ⟨_, rfl, Core.parseConfig_configText hstorable⟩
  obtain ⟨disk₁, htraces, hfile₁⟩ := exists_traces hfirst' hstorable hfile
  obtain ⟨disk₂, htraces', -⟩ := exists_traces hsecond' hstorable' hfile₁
  have hlife : Lifetime (onDisk (some "/home/me") true) (fun args => (run args).run)
      (Core.pairedDisk "abc") [first, second] disk₂ := .cons htraces (.cons htraces' (.nil _))
  have hall : ∀ x ∈ [first, second], (parseArgsFrom x.input).signalUrl = none ∧
      (parseArgsFrom x.input).room = none ∧ Saving x.transcript := by
    intro x hx
    rcases List.mem_cons.1 hx with rfl | hx
    · rw [hfirst, hhttp]
      exact ⟨rfl, rfl, saving_again hfirst'⟩
    · obtain rfl := List.mem_singleton.1 hx
      rw [hsecond, hp2p]
      exact ⟨rfl, rfl, saving_again hsecond'⟩
  have htidy : ∀ x ∈ [first, second], Tidy (parseArgsFrom x.input) := by
    intro x hx
    obtain ⟨hurl, hroom, -⟩ := hall x hx
    refine ⟨?_, ?_⟩
    · rw [hurl]
      rintro _ ⟨⟩
    · rw [hroom]
      rintro _ ⟨⟩
  obtain ⟨settings', -, hholds', hkept⟩ :=
    settings_survive htidy (fun x hx => (hall x hx).2.2) hholds hlife
  obtain ⟨hroom, hjoins⟩ := hkept "abc" rfl fun x hx => (hall x hx).2.1
  refine ⟨_, _, settings', ?_, hlife, hholds', hroom, hjoins⟩
  simp [hfirst, hsecond]

end Daemon
end FolkAround
