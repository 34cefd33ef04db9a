import FolkAround.Core
import FolkAround.Json
import FolkAround.Lib.Effects

/-!
# The host of the tools

What the tools do to the machine they run on, as effects.  What an effect is answered is
up to the machine; `none` and the errors stand for calls that fail.

* `Effect`, `Answer` — the effects: processes, files, the desktop, semantic actions.
* `Host`, `Exec` — programs with these effects, which share the semantic observations
  made so far; in `Exec` they may fail.
* `ToolExecError` — how a tool fails, and the text it fails with.
* `Externals` — what the tools compute with other people's code.
-/

namespace FolkAround
namespace ComputerUse

abbrev Bytes := List UInt8

/-! ## Errors -/

inductive ToolExecError where
  | missing (name : String)
  | invalidArguments
  | io
  | blocked
  | peekaboo
  | json (text : String)
  | praefectus
  | semantic
  | semanticUnavailable
  | coordinatesUnavailable
  | screenshotReferenceUnavailable
  deriving DecidableEq

def ToolExecError.text : ToolExecError → String
  | missing name => "missing " ++ name
  | invalidArguments => "invalid tool arguments"
  | io => "host I/O request failed"
  | blocked => "action blocked in this mode"
  | peekaboo => "computer-use backend request failed"
  | json text => text
  | praefectus => "computer-use protocol request failed"
  | semantic => "semantic computer-use target is unavailable"
  | semanticUnavailable => "semantic computer-use backend is unavailable"
  | coordinatesUnavailable => "raw coordinate actions are unavailable"
  | screenshotReferenceUnavailable => "safe screenshot reference is unavailable"

/-! ## Files -/

inductive FileError where
  | alreadyExists
  | other
  deriving DecidableEq

structure FileMetadata where
  isFile : Bool
  len : Nat
  mode : Nat

/-- The operations that only succeed or fail. -/
inductive FileOp where
  | createDirAll (path : String)
  | setPermissions (path : String) (mode : Nat)
  /-- Create a file that is not there yet. -/
  | openNew (path : String) (mode : Nat)
  | openFile (path : String)
  | syncAll (path : String)
  | removeFile (path : String)
  deriving DecidableEq

/-! ## The desktop -/

inductive ImageMode where
  | screen
  | window
  | other (name : String)

structure ImageCapture where
  path : String
  mode : Value
  ephemeral : Bool
  mimeType : String

inductive Direction where
  | left
  | right
  | up
  | down

structure Point where
  x : Int
  y : Int

structure Bounds where
  x : Int
  y : Int
  width : Int
  height : Int

inductive Target where
  | query (query : String) (snapshot : Option String)
  | point (point : Point)

/-- What the desktop automation does and only reports as done. -/
inductive DesktopAction where
  | clipboardWrite (text : String)
  | typeText (text : String) (clear pressReturn : Bool) (delayMs : Option UInt64)
      (app : Option String)
  | press (key : String) (count : Nat) (delayMs : Option UInt64)
  | paste (text : String)
  | hotkey (keys : List String)
  | scroll (direction : Direction) (amount : Nat)
  | moveCursor (target : Target)
  | performAction (target : Target) (action : String)
  | openTarget (target : String) (app : Option String) (noFocus : Bool)

/-- What the desktop automation answers with a JSON value. -/
inductive DesktopQuery where
  | doctor
  | listScreens
  | grantPermissions
  | window (action : String) (app : Option String) (bounds : Option Bounds)
  | app (action app : String)
  | menu (action app : String) (menu item : Option String)

/-! ## Semantic actions -/

/-- A semantic observation: its name, when it expires, and what was seen. -/
structure Observation where
  observationId : String
  expiresAtMs : Int
  content : Value

structure SemanticTarget where
  content : Value

inductive Action where
  | invoke
  | setValue (value : String)

inductive InteractionMode where
  | interactive
  | backgroundOnly

/-- How an action that was reported ended. -/
inductive Terminal where
  | rejected
  | cancelledBeforeEffect
  | expiredBeforeEffect
  | other
  deriving DecidableEq

structure ExecuteReport where
  content : Value
  terminals : List Terminal

inductive SemanticCall where
  /-- The actions the executor supports. -/
  | capabilities
  | observe (deadlineAtMs : Int)
  /-- Sign the action, write it to the ledger and execute it. -/
  | execute (action : Action) (target : SemanticTarget) (operationId : String)
      (deadlineAtMs : Int) (interactionMode : InteractionMode)

def SemanticCall.Answer : SemanticCall → Type
  | .capabilities => Except ToolExecError (List String)
  | .observe _ => Except ToolExecError Observation
  | .execute .. => Except ToolExecError ExecuteReport

/-! ## All effects -/

structure ProcessOutput where
  stdout : Bytes
  stderr : Bytes
  status : Option Int

inductive Effect where
  /-- Run a program to its end. -/
  | run (program : String) (args : List String) (input cwd : Option String)
  /-- Start a program and leave it running. -/
  | spawn (program : String) (args : List String)
  /-- The server, not a tool, runs `hostname`. -/
  | hostname
  | log (text : String)
  | var (name : String)
  | now
  | sleep (millis : Nat)
  | random (count : Nat)
  | file (op : FileOp)
  | metadata (path : String)
  /-- Everything in an open file. -/
  | readFile (path : String)
  | act (action : DesktopAction)
  | query (query : DesktopQuery)
  | clipboardRead
  | permissions
  | image (mode : ImageMode) (path : String) (retina : Bool)
  | imageApp (app : String) (path : String) (retina : Bool)
  | cleanSnapshots (all : Bool) (snapshot : Option String)
  | semantic (call : SemanticCall)
  /-- Take the lock of the observations, which fails after a panic. -/
  | lockObservations

def Answer : Effect → Type
  | .run .. => Option ProcessOutput
  | .spawn .. => Option Unit
  | .hostname => Option Bytes
  | .log _ => Unit
  | .var _ => Option String
  | .now => Option Int
  | .sleep _ => Unit
  | .random count => Fin count → UInt8
  | .file _ => Except FileError Unit
  | .metadata _ => Except FileError FileMetadata
  | .readFile _ => Except FileError Bytes
  | .act _ => Option Unit
  | .query _ => Option Value
  | .clipboardRead => Option String
  | .permissions => Value
  | .image .. | .imageApp .. => Option ImageCapture
  | .cleanSnapshots .. => Option Nat
  | .semantic call => call.Answer
  | .lockObservations => Bool

/-- The observations that are kept, oldest first. -/
abbrev Observations := List Observation

abbrev Host := StateT Observations (Effects.Prog Effect Answer)

abbrev Exec := ExceptT ToolExecError Host

/-- Perform an effect. -/
def perform (e : Effect) : Host (Answer e) := StateT.lift (.effect e)

/-- A missing answer is a failure. -/
def orFail {α : Type} (err : ToolExecError) : Option α → Exec α
  | some a => pure a
  | none => throw err

/-- Fail as an answer says. -/
def ofExcept {α : Type} : Except ToolExecError α → Exec α
  | .ok a => pure a
  | .error err => throw err

/-- A failed file operation, whatever the failure. -/
def fileOk {α : Type} : Except FileError α → Exec α
  | .ok a => pure a
  | .error _ => throw .io

/-! ## What is computed elsewhere -/

structure Externals where
  unix : Bool
  os : String
  arch : String
  /-- The text of a JSON value, and the indented one. -/
  toText : Value → String
  toTextPretty : Value → String
  sha256Hex : Bytes → String
  parseImageMode : String → Option ImageMode
  /-- A number as a double, cut to 64 bits. -/
  truncateI64 : Number → Int
  /-- A number of seconds in milliseconds. -/
  millis : Number → Nat
  /-- Whether an observation is well formed and not expired. -/
  validate : Observation → Int → Except ToolExecError Unit
  target : Observation → String → Except ToolExecError SemanticTarget

/-- A host on which nothing works that needs other people's code. -/
def bareHost : Externals where
  unix := true
  os := "linux"
  arch := "x86_64"
  toText _ := ""
  toTextPretty _ := ""
  sha256Hex _ := ""
  parseImageMode _ := none
  truncateI64 _ := 0
  millis _ := 0
  validate _ _ := .ok ()
  target _ _ := .error .semantic

end ComputerUse
end FolkAround
