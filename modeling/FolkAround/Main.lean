import FolkAround.Core
import FolkAround.Core.Config
import FolkAround.Lib.Transcript
import FolkAround.Transport.P2P

/-!
# The daemon, from its command line on

The settings come from the command line and from the file of the last run.  They are
resolved, saved, and one of three ways to serve the tools is taken.

* `Cli`, `parseArgsFrom` — the command line.
* `transport` — the signalling server and the port, from both sources.
* `serveP2P`, `serveHttp`, `serveStdio` — the three ways.
* `run` — the whole.
-/

namespace FolkAround
namespace Daemon

open FolkAround.Core (AppConfig)
open Transport (TransportError)

/-! ## The command line -/

structure Cli where
  verbose : Bool
  mode : Option String
  httpPort : Option UInt16
  signalUrl : Option String
  room : Option String
  p2pRequested : Bool
  stdioRequested : Bool
  help : Bool
  version : Bool

/-- `Cli::default()` -/
def Cli.default : Cli := ⟨false, none, none, none, none, false, false, false, false⟩

/-- `value.parse::<u16>().ok()` -/
def parsePort (value : String) : Option UInt16 :=
  (Text.parseUnsigned (2 ^ 16) value.toList).map UInt16.ofNat

/-- A flag that stands by itself; anything else is skipped. -/
def Cli.flag (cli : Cli) (arg : String) : Cli :=
  if arg = "--verbose" ∨ arg = "-v" then { cli with verbose := true }
  else if arg = "--p2p" then { cli with p2pRequested := true }
  else if arg = "--stdio" then { cli with stdioRequested := true }
  else if arg = "--help" ∨ arg = "-h" then { cli with help := true }
  else if arg = "--version" ∨ arg = "-V" then { cli with version := true }
  else cli

/-- What a flag does that takes the next argument as its value. -/
def valueFlag (arg : String) : Option (Cli → String → Cli) :=
  if arg = "--mode" then some fun cli value => { cli with mode := some value }
  else if arg = "--http" then some fun cli value => { cli with httpPort := parsePort value }
  else if arg = "--signal-server" then some fun cli value => { cli with signalUrl := some value }
  else if arg = "--room" then some fun cli value => { cli with room := some value }
  else none

/-- The loop over the arguments. -/
def parseArgsInto (cli : Cli) : List String → Cli
  | [] => cli
  | [arg] => if (valueFlag arg).isSome then cli else cli.flag arg
  | arg :: value :: rest =>
    match valueFlag arg with
    | some set => parseArgsInto (set cli value) rest
    | none => parseArgsInto (cli.flag arg) (value :: rest)

def parseArgsFrom (args : List String) : Cli := parseArgsInto .default args

/-! ## Effects -/

inductive Effect where
  | printHelp
  | printVersion
  | loadConfig
  | saveConfig (config : AppConfig)
  | generatePairingCode
  | logStatus (text : String)
  /-- Join the room at the signalling server, with the tools in this mode. -/
  | startP2P (verbose : Bool) (mode : AccessMode) (signalUrl room : String)
  | loadOrCreateHttpBearer
  | runHttp (verbose : Bool) (mode : AccessMode) (port : UInt16) (bearer : String)
  | runStdio (verbose : Bool) (mode : AccessMode)

def Answer : Effect → Type
  | .printHelp | .printVersion | .logStatus _ | .startP2P .. => Unit
  | .loadConfig => Except ConfigError AppConfig
  | .saveConfig _ => Except ConfigError Unit
  | .generatePairingCode => String
  | .loadOrCreateHttpBearer => Except ConfigError String
  | .runHttp .. | .runStdio .. => Except TransportError Unit

/-- How the daemon ends otherwise than well. -/
inductive Failure where
  | config (err : ConfigError)
  | transport (err : TransportError)
  /-- `process::exit` -/
  | exit (code : Nat)

abbrev Exec := ExceptT Failure (Effects.Prog Effect Answer)

def perform (e : Effect) : Exec (Answer e) := ExceptT.lift (.effect e)

/-- The `?` after a call of the configuration, and after one of the transport. -/
def configOk {α : Type} : Except ConfigError α → Exec α
  | .ok a => pure a
  | .error err => throw (.config err)

def transportOk {α : Type} : Except TransportError α → Exec α
  | .ok a => pure a
  | .error err => throw (.transport err)

def printHelp : Exec Unit := perform .printHelp

def printVersion : Exec Unit := perform .printVersion

def generatePairingCode : Exec String := perform .generatePairingCode

def logStatus (text : String) : Exec Unit := perform (.logStatus text)

/-- What is only said when the run is a verbose one. -/
def logVerbose (verbose : Bool) (text : String) : Exec Unit :=
  if verbose then logStatus text else pure ()

/-- `save_config(..)?` -/
def saveConfig (config : AppConfig) : Exec Unit := do
  let saved : Except ConfigError Unit ← perform (.saveConfig config)
  configOk saved

/-- `load_or_create_http_bearer()?` and `run_http(..)?` -/
def runHttp (verbose : Bool) (mode : AccessMode) (port : UInt16) : Exec Unit := do
  let bearer : Except ConfigError String ← perform .loadOrCreateHttpBearer
  let bearer ← configOk bearer
  let served : Except TransportError Unit ← perform (.runHttp verbose mode port bearer)
  transportOk served

def portText (port : UInt16) : String := String.ofList (Nat.toDigits 10 port.toNat)

def printPairingInstructions (signalUrl room : String) (port : UInt16) : Exec Unit := do
  logStatus ("Pairing code: " ++ room)
  logStatus ("Give this code to the client and use signaling server: " ++ signalUrl)
  logStatus ("Local MCP endpoint: http://127.0.0.1:" ++ portText port ++ "/sse")
  logStatus "Waiting for peer..."

/-! ## Resolving the settings -/

def defaultSignalUrl : String := "https://folkaround.undivisible.dev"

/-- The signalling server and the port: the command line goes before the file, and the
file is only asked for a server when one is wanted. -/
def transport (cli : Cli) (saved : AppConfig) : Option String × Option UInt16 :=
  if cli.stdioRequested then (none, none)
  else
    (if cli.p2pRequested ∧ cli.signalUrl = none then
        some (saved.signalUrl.getD defaultSignalUrl)
      else cli.signalUrl,
      match cli.httpPort with
      | some port => some port
      | none => saved.httpPort)

def resolveMode (cli : Cli) (saved : AppConfig) : String :=
  match cli.mode with
  | some name => name
  | none => saved.mode.getD "full"

theorem resolveMode_eq (cli : Cli) (saved : AppConfig) :
    resolveMode cli saved = (cli.mode.or saved.mode).getD "full" := by
  unfold resolveMode
  cases cli.mode with
  | some name => rfl
  | none => rfl

section

variable {cli : Cli} (saved : AppConfig)

theorem transport_stdio (hstdio : cli.stdioRequested = true) :
    transport cli saved = (none, none) := if_pos hstdio

theorem port_eq (cli : Cli) :
    (match cli.httpPort with
      | some port => some port
      | none => saved.httpPort) = cli.httpPort.or saved.httpPort := by
  cases cli.httpPort with
  | some port => rfl
  | none => rfl

/-- A server is wanted. -/
theorem transport_p2p (hstdio : cli.stdioRequested = false)
    (hp2p : cli.p2pRequested = true ∨ cli.signalUrl.isSome = true) :
    transport cli saved = (some ((cli.signalUrl.or saved.signalUrl).getD defaultSignalUrl),
      cli.httpPort.or saved.httpPort) := by
  rw [transport, if_neg (by simp [hstdio]), port_eq]
  cases hurl : cli.signalUrl with
  | some url => rw [if_neg (by simp), Option.some_or, Option.getD_some]
  | none =>
      have hrequested : cli.p2pRequested = true := by simpa [hurl] using hp2p
      rw [if_pos ⟨hrequested, rfl⟩, Option.none_or]

/-- No server is wanted. -/
theorem transport_local (hstdio : cli.stdioRequested = false) (hp2p : cli.p2pRequested = false)
    (hurl : cli.signalUrl = none) :
    transport cli saved = (none, cli.httpPort.or saved.httpPort) := by
  rw [transport, if_neg (by simp [hstdio]), port_eq, if_neg (by simp [hp2p]), hurl]

end

/-- The room from the command line or the file, or a new one. -/
def resolveRoom (cli : Cli) (saved : AppConfig) : Exec String :=
  match cli.room with
  | some room => pure room
  | none =>
    match saved.room with
    | some room => pure room
    | none => generatePairingCode

/-! ## The three ways to serve -/

def serveP2P (verbose : Bool) (mode : AccessMode) (modeName url room : String) (port : UInt16) :
    Exec Unit := do
  saveConfig ⟨some url, some room, some port, some modeName⟩
  logVerbose verbose ("P2P mode, signaling: " ++ url)
  let _started : Unit ← perform (.startP2P verbose mode url room)
  printPairingInstructions url room port
  runHttp verbose mode port

def serveHttp (verbose : Bool) (mode : AccessMode) (modeName : String) (saved : AppConfig)
    (port : UInt16) : Exec Unit := do
  saveConfig ⟨saved.signalUrl, saved.room, some port, some modeName⟩
  logStatus (if verbose then "HTTP SSE mode on port " ++ portText port
    else "HTTP listening on http://127.0.0.1:" ++ portText port ++ "/")
  runHttp verbose mode port

def serveStdio (verbose : Bool) (mode : AccessMode) : Exec Unit := do
  logVerbose verbose ("stdio mode (mode=" ++ mode.asStr ++ ")")
  let served : Except TransportError Unit ← perform (.runStdio verbose mode)
  transportOk served

/-- What is done once the file was read. -/
def start (cli : Cli) (saved : AppConfig) : Exec Unit :=
  let modeName := resolveMode cli saved
  match AccessMode.parse modeName with
  | none => do
    logStatus "invalid mode. use: full, limited, sandbox"
    throw (.exit 1)
  | some mode =>
    match transport cli saved with
    | (some url, httpPort) => do
      let room ← resolveRoom cli saved
      serveP2P cli.verbose mode modeName url room (httpPort.getD 8080)
    | (none, some port) => serveHttp cli.verbose mode modeName saved port
    | (none, none) => serveStdio cli.verbose mode

/-- The daemon with these arguments. -/
def run (args : List String) : Exec Unit :=
  let cli := parseArgsFrom args
  if cli.help then printHelp
  else if cli.version then printVersion
  else do
    let saved : Except ConfigError AppConfig ← perform .loadConfig
    let saved ← configOk saved
    start cli saved

end Daemon
end FolkAround
